import CocosOS.Library.ByteMemory
import Mathlib.Data.List.Pairwise

/-!
# What a client may assume of an allocator

An allocator keeps its own books in the memory it manages, so a client that stores through a
stray pointer can break it. `Allocator` is the contract of the two sides. `Allocated blocks mem`
says that in `mem` the blocks of the list are handed out. From it the client learns that the
blocks lie in the address space and apart from each other (`fits`, `apart`). A call leaves the
bytes of every block alone (`keeps`) and takes none back (`holds`), and an answer other than
`NULL` is one more block (`fresh`). In return the client stores into the blocks only (`stable`).

What a request longer than half the address space is answered with is not part of the contract.
-/

set_option autoImplicit false

namespace CocosOS.Library.ByteMemory

/-- A range of bytes, by its first address and its length. -/
structure Extent where
  addr : Word
  length : ℕ
deriving DecidableEq

namespace Extent

/-- The range does not pass the end of the address space. -/
def Fits (e : Extent) : Prop := e.addr.toNat + e.length ≤ 2 ^ 32

def Apart (e f : Extent) : Prop := ByteMemory.Apart e.addr e.length f.addr f.length

def SameOn (e : Extent) (m m' : Mem) : Prop := ByteMemory.SameOn e.addr e.length m m'

theorem Apart.symm {e f : Extent} (apart : e.Apart f) : f.Apart e :=
  ByteMemory.Apart.symm apart

instance : Std.Symm Apart := ⟨fun _ _ apart => apart.symm⟩

/-- Two memories agree on whatever is apart from where they differ. -/
theorem Apart.sameOn {e f : Extent} {m m' : Mem} (apart : e.Apart f)
    (frame : ∀ x, ¬ Covers e.addr e.length x → m' x = m x) : f.SameOn m m' :=
  fun x inside => frame x fun covered => apart x covered inside

end Extent

/-- The longest request whose answer is part of the contract. -/
def maxRequest : ℕ := 2 ^ 31

/-- An allocation function, when its blocks are handed out, and what holds then. -/
structure Allocator where
  alloc : Word → Mem → Option (Word × Mem)
  Allocated : List Extent → Mem → Prop
  fits : ∀ {blocks : List Extent} {mem : Mem}, Allocated blocks mem → ∀ b ∈ blocks, b.Fits
  apart : ∀ {blocks : List Extent} {mem : Mem}, Allocated blocks mem →
    blocks.Pairwise Extent.Apart
  keeps : ∀ {blocks : List Extent} {mem : Mem} {n p : Word} {mem' : Mem},
    Allocated blocks mem → alloc n mem = some (p, mem') → ∀ b ∈ blocks, b.SameOn mem mem'
  holds : ∀ {blocks : List Extent} {mem : Mem} {n p : Word} {mem' : Mem},
    Allocated blocks mem → alloc n mem = some (p, mem') → Allocated blocks mem'
  fresh : ∀ {blocks : List Extent} {mem : Mem} {n p : Word} {mem' : Mem},
    Allocated blocks mem → n.toNat ≤ maxRequest → alloc n mem = some (p, mem') → p ≠ 0 →
      Allocated (⟨p, n.toNat⟩ :: blocks) mem'
  stable : ∀ {blocks : List Extent} {mem mem' : Mem}, Allocated blocks mem →
    (∀ x, (∀ b ∈ blocks, ¬ Covers b.addr b.length x) → mem' x = mem x) → Allocated blocks mem'

namespace Allocator

/-- The allocator never answers `NULL`. -/
def NeverNull (A : Allocator) : Prop :=
  ∀ n mem p mem', A.alloc n mem = some (p, mem') → p ≠ 0

variable (A : Allocator) {blocks : List Extent} {mem mem' : Mem}

/-- A store into one block keeps the books. -/
theorem stable_of_mem (allocated : A.Allocated blocks mem) {b : Extent} (member : b ∈ blocks)
    (frame : ∀ x, ¬ Covers b.addr b.length x → mem' x = mem x) : A.Allocated blocks mem' :=
  A.stable allocated fun x outside => frame x (outside b member)

theorem apart_of_ne (allocated : A.Allocated blocks mem) {b c : Extent} (member : b ∈ blocks)
    (member' : c ∈ blocks) (ne : b ≠ c) : b.Apart c :=
  (A.apart allocated).forall member member' ne

/-- A store into one block leaves the others alone. -/
theorem sameOn_of_ne (allocated : A.Allocated blocks mem) {b c : Extent} (member : b ∈ blocks)
    (member' : c ∈ blocks) (ne : b ≠ c)
    (frame : ∀ x, ¬ Covers b.addr b.length x → mem' x = mem x) : c.SameOn mem mem' :=
  (A.apart_of_ne allocated member member' ne).sameOn frame

/-- The block of an answered request lies apart from all others. -/
theorem apart_fresh (allocated : A.Allocated blocks mem) {n p : Word}
    (small : n.toNat ≤ maxRequest) (call : A.alloc n mem = some (p, mem')) (nonnull : p ≠ 0) :
    (⟨p, n.toNat⟩ : Extent).Fits ∧ ∀ b ∈ blocks, (⟨p, n.toNat⟩ : Extent).Apart b := by
  have after := A.fresh allocated small call nonnull
  exact ⟨A.fits after _ List.mem_cons_self, (List.pairwise_cons.mp (A.apart after)).1⟩

/-- The allocator that does not return where the given one answers `NULL`. -/
def strict : Allocator where
  alloc n mem := (A.alloc n mem).filter fun answer => answer.1 ≠ 0
  Allocated := A.Allocated
  fits := A.fits
  apart := A.apart
  keeps allocated call := A.keeps allocated (Option.filter_eq_some_iff.mp call).1
  holds allocated call := A.holds allocated (Option.filter_eq_some_iff.mp call).1
  fresh allocated small call := A.fresh allocated small (Option.filter_eq_some_iff.mp call).1
  stable := A.stable

theorem neverNull_strict : A.strict.NeverNull := by
  intro n mem p mem' call
  simpa using (Option.filter_eq_some_iff.mp call).2

end Allocator

end CocosOS.Library.ByteMemory
