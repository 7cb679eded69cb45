import CocosOS.Library.ByteMemory

/-!
# Paging

`kernel/memory/paging.c` over byte-addressed memory. A page directory is a C struct of 8196
bytes: 1024 directory entries, 1024 pointers `tables_virtual`, and `physical_address`. A page
table is 1024 entries of four bytes. A page table entry is read and written through its
bit-fields. The frame bitmap is an array of bytes, bit `i % 8` of byte `i / 8` for frame `i`.

The file-scope variables and the two control registers are the fields of `Machine`.
`Memory_alloc` is a parameter of the functions that call it; it may have no result, when its
walk over the heap does not end. A call that panics or does not return has no state after it
(`Stop`). `panic` is taken not to return.
-/

set_option autoImplicit false

namespace CocosOS.Kernel.Memory

open Library.ByteMemory

/-! ## Pages, tables and directories -/

/-- `PAGE_SIZE`. -/
def pageSize : Word := 4096

/-- `PAGE_PRESENT`. -/
def pagePresent : Word := 1

/-- `PAGE_WRITE`. -/
def pageWrite : Word := 2

/-- `PAGE_USER`. -/
def pageUser : Word := 4

/-- `virt >> 22`. -/
def pdIndex (virt : Word) : Word := virt >>> 22

/-- `(virt >> 12) & 0x3FF`. -/
def ptIndex (virt : Word) : Word := (virt >>> 12) &&& (0x3FF : Word)

namespace PageTableEntry

/-- The bit-field `present`. -/
def present (entry : Word) : Bool := entry &&& pagePresent ≠ 0

/-- The bit-field `frame`, the upper twenty bits. -/
def frame (entry : Word) : Word := entry >>> 12

/-- Assign a bit-field of one bit, given by its mask. -/
def setFlag (mask : Word) (value : Bool) (entry : Word) : Word :=
  if value then entry ||| mask else entry &&& ~~~mask

/-- Assign the bit-field `frame`, which keeps the low twenty bits of the value. -/
def setFrame (value entry : Word) : Word := (entry &&& (0xFFF : Word)) ||| (value <<< 12)

end PageTableEntry

namespace PageTable

/-- `sizeof(page_table_t)`. -/
def sizeof : Word := 4096

/-- `&table->entries[index]`. -/
def entryAddr (table index : Word) : Word := table + 4 * index

/-- `table->entries[index]`. -/
def entry (mem : Mem) (table index : Word) : Word := load32 mem (entryAddr table index)

def setEntry (table index value : Word) (mem : Mem) : Mem :=
  store32 mem (entryAddr table index) value

end PageTable

namespace PageDirectory

/-- `sizeof(page_directory_t)`. -/
def sizeof : Word := 8196

/-- `&dir->entries[index]`. -/
def entryAddr (dir index : Word) : Word := dir + 4 * index

/-- `&dir->tables_virtual[index]`. -/
def tableAddr (dir index : Word) : Word := dir + (4096 + 4 * index)

/-- `&dir->physical_address`. -/
def physicalAddr (dir : Word) : Word := dir + 8192

/-- `dir->entries[index]`. -/
def entry (mem : Mem) (dir index : Word) : Word := load32 mem (entryAddr dir index)

/-- `dir->tables_virtual[index]`. -/
def table (mem : Mem) (dir index : Word) : Word := load32 mem (tableAddr dir index)

/-- `dir->physical_address`. -/
def physicalAddress (mem : Mem) (dir : Word) : Word := load32 mem (physicalAddr dir)

def setEntry (dir index value : Word) (mem : Mem) : Mem :=
  store32 mem (entryAddr dir index) value

def setTable (dir index value : Word) (mem : Mem) : Mem :=
  store32 mem (tableAddr dir index) value

def setPhysicalAddress (dir value : Word) (mem : Mem) : Mem :=
  store32 mem (physicalAddr dir) value

/-- `dir->entries[index] & PAGE_PRESENT`. -/
def present (mem : Mem) (dir index : Word) : Bool := entry mem dir index &&& pagePresent ≠ 0

end PageDirectory

/-! ## The state -/

/-- The memory, the file-scope variables of `paging.c`, and the control registers. -/
structure Machine where
  mem : Mem
  frameBitmap : Word
  totalFrames : Word
  usedFrames : Word
  kernelDirectory : Word
  cr3 : Word
  cr0 : Word

/-- Why a call does not return: it panicked, or a walk over the heap did not end. -/
inductive Stop where
  | panic
  | endless
deriving DecidableEq, Repr

/-- `Memory_alloc`, as the functions of this file see it. -/
abbrev MemoryAlloc := Word → Mem → Option (Word × Mem)

/-- A call of `Memory_alloc`. -/
def callAlloc (alloc : MemoryAlloc) (size : Word) (s : Machine) : Except Stop (Word × Machine) :=
  match alloc size s.mem with
  | none => .error .endless
  | some (p, mem) => .ok (p, { s with mem := mem })

/-! ## Frames -/

/-- `1 << bit`, as it is applied to a byte of the bitmap. -/
def bitMask (bit : Word) : Byte := (1 : Byte) <<< bit.toNat

/-- `&frame_bitmap[frame / 8]`. -/
def bitmapAddr (s : Machine) (frame : Word) : Word := s.frameBitmap + frame / 8

/-- `frame_bitmap[byte] & (1 << bit)`. -/
def frameMarked (s : Machine) (frame : Word) : Bool :=
  s.mem (bitmapAddr s frame) &&& bitMask (frame % 8) ≠ 0

/-- `frame_bitmap[byte] |= (1 << bit); used_frames++`. -/
def takeFrame (frame : Word) (s : Machine) : Machine :=
  { s with
    mem := store8 s.mem (bitmapAddr s frame) (s.mem (bitmapAddr s frame) ||| bitMask (frame % 8))
    usedFrames := s.usedFrames + 1 }

/-- The loop of `paging_allocate_frame`, with the number of frames it has not looked at. -/
def allocateFrameLoop (s : Machine) : ℕ → Word → Except Stop (Word × Machine)
  | 0, _ => .error .panic
  | rounds + 1, i =>
    if frameMarked s i then allocateFrameLoop s rounds (i + 1) else .ok (i, takeFrame i s)

/-- `paging_allocate_frame`: the lowest frame that is not marked. -/
def pagingAllocateFrame (s : Machine) : Except Stop (Word × Machine) :=
  allocateFrameLoop s s.totalFrames.toNat 0

/-- `paging_free_frame`. -/
def pagingFreeFrame (frame : Word) (s : Machine) : Machine :=
  { s with
    mem := store8 s.mem (bitmapAddr s frame)
      (s.mem (bitmapAddr s frame) &&& ~~~bitMask (frame % 8))
    usedFrames := s.usedFrames - 1 }

/-- `paging_get_free_frames`. -/
def pagingGetFreeFrames (s : Machine) : Word := s.totalFrames - s.usedFrames

/-! ## Directories and pages -/

/-- `paging_create_directory`. -/
def pagingCreateDirectory (alloc : MemoryAlloc) (s : Machine) :
    Except Stop (Word × Machine) := do
  let (dir, s) ← callAlloc alloc PageDirectory.sizeof s
  let mem := fill s.mem dir 0 PageDirectory.sizeof
  let mem := PageDirectory.setPhysicalAddress dir dir mem
  pure (dir, { s with mem := mem })

/-- `paging_switch_directory`, with `load_page_directory`. -/
def pagingSwitchDirectory (dir : Word) (s : Machine) : Machine :=
  { s with cr3 := PageDirectory.physicalAddress s.mem dir }

/-- `enable_paging`. -/
def enablePaging (s : Machine) : Machine := { s with cr0 := s.cr0 ||| 0x80000001 }

/-- The first statement of `paging_map_page`: a table for the directory entry. -/
def ensureTable (alloc : MemoryAlloc) (dir virt flags : Word) (s : Machine) :
    Except Stop Machine :=
  if PageDirectory.present s.mem dir (pdIndex virt) then pure s
  else do
    let (table, s) ← callAlloc alloc PageTable.sizeof s
    let mem := fill s.mem table 0 PageTable.sizeof
    let mem := PageDirectory.setEntry dir (pdIndex virt) (table ||| flags ||| pagePresent) mem
    let mem := PageDirectory.setTable dir (pdIndex virt) table mem
    pure { s with mem := mem }

/-- The four assignments by which `paging_map_page` fills in an entry. -/
def mappedEntry (frame flags entry : Word) : Word :=
  let entry := PageTableEntry.setFrame frame entry
  let entry := PageTableEntry.setFlag pagePresent true entry
  let entry := PageTableEntry.setFlag pageWrite (flags &&& pageWrite ≠ 0) entry
  PageTableEntry.setFlag pageUser (flags &&& pageUser ≠ 0) entry

/-- The second statement of `paging_map_page`: a frame for the table entry. -/
def ensureFrame (dir virt flags : Word) (s : Machine) : Except Stop Machine :=
  let table := PageDirectory.table s.mem dir (pdIndex virt)
  if PageTableEntry.present (PageTable.entry s.mem table (ptIndex virt)) then pure s
  else do
    let (frame, s) ← pagingAllocateFrame s
    let entry := mappedEntry frame flags (PageTable.entry s.mem table (ptIndex virt))
    pure { s with mem := PageTable.setEntry table (ptIndex virt) entry s.mem }

/-- `paging_map_page`. -/
def pagingMapPage (alloc : MemoryAlloc) (dir virt flags : Word) (s : Machine) :
    Except Stop (Word × Machine) := do
  let s ← ensureTable alloc dir virt flags s
  let s ← ensureFrame dir virt flags s
  pure (virt, s)

/-- `paging_unmap_page`. -/
def pagingUnmapPage (dir virt : Word) (s : Machine) : Machine :=
  if PageDirectory.present s.mem dir (pdIndex virt) then
    let table := PageDirectory.table s.mem dir (pdIndex virt)
    let entry := PageTable.entry s.mem table (ptIndex virt)
    if PageTableEntry.present entry then
      let s := pagingFreeFrame (PageTableEntry.frame entry) s
      let entry := PageTable.entry s.mem table (ptIndex virt)
      { s with
        mem := PageTable.setEntry table (ptIndex virt)
          (PageTableEntry.setFlag pagePresent false entry) s.mem }
    else s
  else s

/-- `paging_virtual_to_physical`. -/
def pagingVirtualToPhysical (dir virt : Word) (s : Machine) : Word :=
  if PageDirectory.present s.mem dir (pdIndex virt) then
    let table := PageDirectory.table s.mem dir (pdIndex virt)
    let entry := PageTable.entry s.mem table (ptIndex virt)
    if PageTableEntry.present entry then
      (PageTableEntry.frame entry <<< 12) ||| (virt &&& (0xFFF : Word))
    else 0
  else 0

/-- `paging_is_page_present`. -/
def pagingIsPagePresent (dir virt : Word) (s : Machine) : Bool :=
  if PageDirectory.present s.mem dir (pdIndex virt) then
    let table := PageDirectory.table s.mem dir (pdIndex virt)
    PageTableEntry.present (PageTable.entry s.mem table (ptIndex virt))
  else false

/-! ## `paging_init` -/

/-- The loop of `paging_init` that releases the frames from `i` on. -/
def freeFramesLoop : ℕ → Word → Machine → Machine
  | 0, _, s => s
  | rounds + 1, i, s => freeFramesLoop rounds (i + 1) (pagingFreeFrame i s)

/-- `0x100000 / PAGE_SIZE`. -/
def startFrame : Word := 0x100000 / pageSize

/-- `(total_frames + 7) / 8`. -/
def bitmapSize (totalFrames : Word) : Word := (totalFrames + 7) / 8

/-- `paging_init` up to the loop that releases frames: the bitmap is allocated and filled, and
the frames from `start_frame` on are released. -/
def initFrames (alloc : MemoryAlloc) (totalMemory : Word) (s : Machine) :
    Except Stop Machine := do
  let s := { s with totalFrames := totalMemory / pageSize }
  let size := bitmapSize s.totalFrames
  let (bitmap, s) ← callAlloc alloc size s
  let s := { s with frameBitmap := bitmap, mem := fill s.mem bitmap 0xFF size }
  pure (freeFramesLoop (s.totalFrames.toNat - startFrame.toNat) startFrame s)

/-- The loop of `paging_init` that maps the pages from `addr` on. -/
def mapPagesLoop (alloc : MemoryAlloc) : ℕ → Word → Machine → Except Stop Machine
  | 0, _, s => pure s
  | rounds + 1, addr, s => do
    let (_, s) ← pagingMapPage alloc s.kernelDirectory addr (pagePresent ||| pageWrite) s
    mapPagesLoop alloc rounds (addr + pageSize) s

/-- `paging_init`. The second loop runs from `0` to `0x400000` in steps of `PAGE_SIZE`. -/
def pagingInit (alloc : MemoryAlloc) (totalMemory : Word) (s : Machine) :
    Except Stop Machine := do
  let s ← initFrames alloc totalMemory s
  let (dir, s) ← pagingCreateDirectory alloc s
  let s := { s with kernelDirectory := dir }
  let s ← mapPagesLoop alloc 1024 0 s
  let s := pagingSwitchDirectory s.kernelDirectory s
  pure (enablePaging s)

end CocosOS.Kernel.Memory
