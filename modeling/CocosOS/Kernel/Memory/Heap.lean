import CocosOS.Library.BlockList
import CocosOS.Library.ByteMemory

/-!
# The kernel heap

`kernel/memory/memory.c` over byte-addressed memory. A block header is a C struct in the
memory it manages: `size` in the first four bytes, `used` in the fifth, `next` in the last
four of twelve. The two file-scope pointers `heap_start` and `heap_end` are set by
`Memory_init` and only read afterwards, so they are passed to the other functions.

Every loop of the file follows `next` pointers. The model gives a loop `walkFuel` rounds, as
many as there are addresses; a walk that has not ended by then has met a header twice and
does not end. Such a call has no result (`none`). `NULL` is the address `0`.

`heapBlocks` reads the block list back from memory; no function of the kernel does that.
-/

set_option autoImplicit false

namespace CocosOS.Kernel.Memory

open Library.ByteMemory Library.BlockList

/-! ## Block headers -/

namespace BlockHeader

/-- `sizeof(block_header_t)` on the 32-bit target. -/
def sizeof : Word := 12

def size (mem : Mem) (block : Word) : Word := load32 mem block

def used (mem : Mem) (block : Word) : Byte := mem (block + 4)

def next (mem : Mem) (block : Word) : Word := load32 mem (block + 8)

def setSize (block value : Word) (mem : Mem) : Mem := store32 mem block value

def setUsed (block : Word) (value : Byte) (mem : Mem) : Mem := store8 mem (block + 4) value

def setNext (block value : Word) (mem : Mem) : Mem := store32 mem (block + 8) value

end BlockHeader

open BlockHeader

/-- The file-scope variables of `memory.c`. -/
structure HeapBounds where
  heapStart : Word
  heapEnd : Word
deriving DecidableEq, Repr

/-- More rounds than a walk over distinct headers can take. -/
def walkFuel : ℕ := 2 ^ 32

/-! ## The functions -/

/-- `Memory_init`: one free block over the whole range. -/
def memoryInit (start size : Word) (mem : Mem) : HeapBounds × Mem :=
  let mem := setSize start (size - sizeof) mem
  let mem := setUsed start 0 mem
  let mem := setNext start 0 mem
  (⟨start, start + size⟩, mem)

/-- The two assignments of `coalesce` by which the block at `current` takes over the next. -/
def mergeNext (current : Word) (mem : Mem) : Mem :=
  let mem := setSize current (size mem current + (size mem (next mem current) + sizeof)) mem
  setNext current (next mem (next mem current)) mem

/-- The loop of `coalesce`. -/
def coalesceLoop : ℕ → Word → Mem → Option Mem
  | 0, _, _ => none
  | fuel + 1, current, mem =>
    if current ≠ 0 ∧ next mem current ≠ 0 then
      if used mem current = 0 ∧ used mem (next mem current) = 0 then
        coalesceLoop fuel current (mergeNext current mem)
      else coalesceLoop fuel (next mem current) mem
    else some mem

/-- `coalesce`: one pass from `heap_start` that merges neighbouring free blocks. -/
def coalesce (bounds : HeapBounds) (mem : Mem) : Option Mem :=
  coalesceLoop walkFuel bounds.heapStart mem

/-- The branch of `Memory_alloc` that splits the block at `current`. -/
def splitBlock (current size : Word) (mem : Mem) : Mem :=
  let newBlock := current + sizeof + size
  let mem := setSize newBlock (BlockHeader.size mem current - size - sizeof) mem
  let mem := setUsed newBlock 0 mem
  let mem := setNext newBlock (next mem current) mem
  let mem := setNext current newBlock mem
  setSize current size mem

/-- What `Memory_alloc` does to the block it has found: split it if it is long enough, and
mark it used. -/
def takeBlock (current size : Word) (mem : Mem) : Mem :=
  let mem :=
    if size + sizeof + 4 < BlockHeader.size mem current then splitBlock current size mem
    else mem
  setUsed current 1 mem

/-- The loop of `Memory_alloc`, for a request that is already rounded. -/
def allocLoop (size : Word) : ℕ → Word → Mem → Option (Word × Mem)
  | 0, _, _ => none
  | fuel + 1, current, mem =>
    if current ≠ 0 then
      if used mem current = 0 ∧ size ≤ BlockHeader.size mem current then
        some (current + sizeof, takeBlock current size mem)
      else allocLoop size fuel (next mem current) mem
    else some (0, mem)

/-- `size = (size + 3) & ~3`. -/
def roundSize (size : Word) : Word := (size + 3) &&& ~~~(3 : Word)

/-- `Memory_alloc`: the payload of the first free block that is long enough, or `NULL`. -/
def memoryAlloc (bounds : HeapBounds) (size : Word) (mem : Mem) : Option (Word × Mem) :=
  if size = 0 then some (0, mem) else allocLoop (roundSize size) walkFuel bounds.heapStart mem

/-- `Memory_free`: releases the block whose payload is at `ptr`. -/
def memoryFree (bounds : HeapBounds) (ptr : Word) (mem : Mem) : Option Mem :=
  if ptr = 0 then some mem
  else if ptr < bounds.heapStart ∨ bounds.heapEnd ≤ ptr then some mem
  else coalesce bounds (setUsed (ptr - sizeof) 0 mem)

/-- The loop of `Memory_get_free`. -/
def getFreeLoop (mem : Mem) : ℕ → Word → Word → Option Word
  | 0, _, _ => none
  | fuel + 1, current, total =>
    if current ≠ 0 then
      let total := if used mem current = 0 then total + size mem current else total
      getFreeLoop mem fuel (next mem current) total
    else some total

/-- `Memory_get_free`: the sum of the sizes of the free blocks. -/
def memoryGetFree (bounds : HeapBounds) (mem : Mem) : Option Word :=
  getFreeLoop mem walkFuel bounds.heapStart 0

/-! ## Reading the block list back -/

/-- The block whose header is at `p`. -/
def blockAt (mem : Mem) (p : Word) : Block :=
  ⟨p.toNat, (size mem p).toNat, used mem p ≠ 0⟩

/-- The blocks met on the walk along `next` from `p`. -/
def readBlocks (mem : Mem) : ℕ → Word → Option (List Block)
  | 0, _ => none
  | fuel + 1, p =>
    if p ≠ 0 then (readBlocks mem fuel (next mem p)).map (blockAt mem p :: ·) else some []

/-- The block list of the heap. -/
def heapBlocks (bounds : HeapBounds) (mem : Mem) : Option (List Block) :=
  readBlocks mem walkFuel bounds.heapStart

example :
    let (bounds, mem) := memoryInit 0x100000 64 fun _ => 0xAA
    ((memoryAlloc bounds 5 mem).bind fun (p, mem) =>
        (heapBlocks bounds mem).map fun blocks => (p, blocks)) =
      some (0x10000C, [⟨0x100000, 8, true⟩, ⟨0x100014, 32, false⟩]) := by
  decide

end CocosOS.Kernel.Memory
