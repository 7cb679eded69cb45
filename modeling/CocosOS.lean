import CocosOS.Library.ByteMemory
import CocosOS.Library.WordArithmetic
import CocosOS.Library.BlockList
import CocosOS.Library.Allocator
import CocosOS.Library.OwnedHeap
import CocosOS.Library.SharedPool
import CocosOS.Library.CachedMap
import CocosOS.Library.AtaDevice
import CocosOS.Library.RingQueue
import CocosOS.Library.BoundedArray
import CocosOS.Library.CString
import CocosOS.Library.CTokens
import CocosOS.Library.LinkedList
import CocosOS.Library.CLexer
import CocosOS.Library.WrittenText
import CocosOS.Library.CUnit
import CocosOS.Library.CWriter
import CocosOS.Library.FirstMinimum
import CocosOS.Kernel.Memory.Heap
import CocosOS.Kernel.Memory.HeapRefinement
import CocosOS.Kernel.Memory.HeapRuns
import CocosOS.Kernel.Memory.HeapGuarantees
import CocosOS.Kernel.Memory.HeapAllocator
import CocosOS.Kernel.Memory.HeapStrayFree
import CocosOS.Kernel.Memory.HeapOwnership
import CocosOS.Kernel.Memory.Paging
import CocosOS.Kernel.Memory.FrameBitmap
import CocosOS.Kernel.Memory.PageTables
import CocosOS.Kernel.Memory.PagingRegions
import CocosOS.Kernel.Memory.PagingRefinement
import CocosOS.Kernel.Memory.PagingInit
import CocosOS.Kernel.Memory.KernelBoot
import CocosOS.Kernel.Memory.PagingRuns
import CocosOS.Kernel.Memory.FrameAccounting
import CocosOS.Kernel.Memory.PageWalk
import CocosOS.Kernel.Memory.PagePermissions
import CocosOS.Kernel.Memory.OutOfHeap
import CocosOS.Kernel.Memory.AddressSpace
import CocosOS.Kernel.Memory.TranslationCache
import CocosOS.Kernel.EventQueues
import CocosOS.Kernel.KernelMain
import CocosOS.Kernel.LuaKernel
import CocosOS.IPC.MessageQueue
import CocosOS.Scheduler.ContextSwitch
import CocosOS.Scheduler.RoundRobin
import CocosOS.Scheduler.TaskStacks
import CocosOS.ProcessManager.Process
import CocosOS.ProcessManager.Creation
import CocosOS.ProcessManager.FailedCreation
import CocosOS.ProcessManager.ProcessTable
import CocosOS.ProcessManager.ProcessLifetimes
import CocosOS.ProcessManager.Dispatch
import CocosOS.ProcessManager.WakeUp
import CocosOS.ProcessManager.CallbackTable
import CocosOS.ProcessManager.ProcessSlots
import CocosOS.Interrupts.TimerInterrupt
import CocosOS.Kernel.Drivers.Disk
import CocosOS.Kernel.Drivers.Nic
import CocosOS.Kernel.Drivers.NicRegistration
import CocosOS.Kernel.Drivers.EthernetFrames
import CocosOS.Kernel.Drivers.Console
import CocosOS.Kernel.Drivers.Mouse
import CocosOS.Filesystem.FileTable
import CocosOS.Filesystem.FileSlots
import CocosOS.Filesystem.Vfs
import CocosOS.Filesystem.VfsNodes
import CocosOS.Filesystem.VfsRuns
import CocosOS.Filesystem.SharedHeap
import CocosOS.Filesystem.VfsPromises
import CocosOS.Gui.UiCompilers
import CocosOS.Terminal.CommandLine
import CocosOS.Library.PathWalk
import CocosOS.Library.FilePath
import CocosOS.Blade.PathCheck
import CocosOS.Library.LuaValue
import CocosOS.Core.Login
import CocosOS.Library.LuaString
import CocosOS.Apps.TextEditor
import CocosOS.Apps.BrowserHistory
import CocosOS.Library.RowPanels
import CocosOS.Apps.RowClicks
import CocosOS.Library.LuaScript
import CocosOS.Apps.Store
import CocosOS.Apps.StoreInstall
import CocosOS.Apps.StoreConfined
import CocosOS.Library.CScan
import CocosOS.Library.Collect
import CocosOS.Installer.DetectedSystems
import CocosOS.Library.InterruptedRing
import CocosOS.Kernel.EventPipeline
import CocosOS.ProcessManager.Starvation
import CocosOS.Terminal.Transcript
import CocosOS.ProcessManager.TickRounds
import CocosOS.Apps.StoreSync
import CocosOS.Apps.WindowRuns
import CocosOS.Kernel.PanicScreen
import CocosOS.Scheduler.InterruptedAdd
import CocosOS.Installer.Dialogue
import CocosOS.Library.Removal
import CocosOS.Kernel.FileListing
import CocosOS.Interrupts.Gates
import CocosOS.Library.InterruptController
import CocosOS.Interrupts.Delivery
import CocosOS.Apps.Snake
import CocosOS.Apps.Explorador
import CocosOS.Library.LastCall
