import CocosOS.Kernel.Memory.Paging
import CocosOS.Library.Allocator
import CocosOS.Library.WordArithmetic

/-!
# Page tables and directories in memory

What the fields of a table and of a directory read after a store to one of them, and what the
bit-fields of an entry read after the assignments of `paging_map_page` and
`paging_unmap_page`.

`lookup` is the walk that `paging_is_page_present` and `paging_virtual_to_physical` share: the
frame of the page of a virtual address, if it is mapped. The page is its twenty upper bits, and
the two indices of the walk determine it (`pageOf_eq_iff`).
-/

set_option autoImplicit false

namespace CocosOS.Kernel.Memory

open Library.ByteMemory Library.WordArithmetic

/-! ## Page numbers -/

/-- The number of the page of a virtual address. -/
def pageOf (virt : Word) : BitVec 20 := virt.extractLsb' 12 20

theorem toNat_pdIndex (virt : Word) : (pdIndex virt).toNat = virt.toNat / 2 ^ 22 := by
  rw [pdIndex, BitVec.toNat_ushiftRight, Nat.shiftRight_eq_div_pow]

theorem toNat_ptIndex (virt : Word) : (ptIndex virt).toNat = virt.toNat / 2 ^ 12 % 1024 := by
  rw [ptIndex, BitVec.toNat_and, BitVec.toNat_ushiftRight, Nat.shiftRight_eq_div_pow]
  exact Nat.and_two_pow_sub_one_eq_mod _ 10

theorem toNat_pageOf (virt : Word) : (pageOf virt).toNat = virt.toNat / 2 ^ 12 := by
  have bound := virt.isLt
  rw [pageOf, BitVec.extractLsb'_toNat, Nat.shiftRight_eq_div_pow]
  exact Nat.mod_eq_of_lt (by omega)

theorem pdIndex_lt (virt : Word) : (pdIndex virt).toNat < 1024 := by
  have bound := virt.isLt
  rw [toNat_pdIndex]
  omega

theorem ptIndex_lt (virt : Word) : (ptIndex virt).toNat < 1024 := by
  rw [toNat_ptIndex]
  exact Nat.mod_lt _ (by decide)

/-- **The two indices determine the page.** -/
theorem pageOf_eq_iff {virt other : Word} :
    pageOf other = pageOf virt ↔ pdIndex other = pdIndex virt ∧ ptIndex other = ptIndex virt := by
  rw [← BitVec.toNat_inj, ← BitVec.toNat_inj, ← BitVec.toNat_inj, toNat_pageOf, toNat_pageOf,
    toNat_pdIndex, toNat_pdIndex, toNat_ptIndex, toNat_ptIndex]
  omega

/-! ## Entries -/

namespace PageTableEntry

theorem present_iff (entry : Word) : present entry = entry.getLsbD 0 := by
  rw [present, Bool.eq_iff_iff, decide_eq_true_eq]
  exact and_twoPow_ne_zero_iff entry (k := 0) (by decide)

/-- A bit other than the assigned one is kept. -/
theorem getLsbD_setFlag {mask : Word} {value : Bool} {entry : Word} {i : ℕ}
    (other : mask.getLsbD i = false) (small : i < 32) :
    (setFlag mask value entry).getLsbD i = entry.getLsbD i := by
  cases value with
  | false =>
      show (entry &&& ~~~mask).getLsbD i = entry.getLsbD i
      rw [BitVec.getLsbD_and, BitVec.getLsbD_not, other]
      simp [small]
  | true =>
      show (entry ||| mask).getLsbD i = entry.getLsbD i
      rw [BitVec.getLsbD_or, other, Bool.or_false]

theorem frame_setFlag {mask : Word} {value : Bool} {entry : Word}
    (low : ∀ i, 12 ≤ i → mask.getLsbD i = false) :
    frame (setFlag mask value entry) = frame entry := by
  refine BitVec.eq_of_getLsbD_eq fun i small => ?_
  rw [frame, frame, BitVec.getLsbD_ushiftRight, BitVec.getLsbD_ushiftRight]
  by_cases inside : 12 + i < 32
  · exact getLsbD_setFlag (low _ (by omega)) inside
  · rw [BitVec.getLsbD_of_ge _ _ (by omega), BitVec.getLsbD_of_ge _ _ (by omega)]

/-- The assigned bit has the value. -/
theorem getLsbD_setFlag_self {mask : Word} {value : Bool} {entry : Word} {i : ℕ}
    (own : mask.getLsbD i = true) (small : i < 32) :
    (setFlag mask value entry).getLsbD i = value := by
  cases value with
  | false =>
      show (entry &&& ~~~mask).getLsbD i = false
      rw [BitVec.getLsbD_and, BitVec.getLsbD_not, own]
      simp [small]
  | true =>
      show (entry ||| mask).getLsbD i = true
      rw [BitVec.getLsbD_or, own, Bool.or_true]

theorem present_setFlag_present (value : Bool) (entry : Word) :
    present (setFlag pagePresent value entry) = value := by
  rw [present_iff]
  exact getLsbD_setFlag_self (by decide) (by decide)

/-- The bit-field `frame` holds the low twenty bits of what is assigned. -/
theorem frame_setFrame {value : Word} (entry : Word) (small : value.toNat < 2 ^ 20) :
    frame (setFrame value entry) = value := by
  refine BitVec.eq_of_getLsbD_eq fun i inside => ?_
  rw [frame, setFrame, BitVec.getLsbD_ushiftRight, BitVec.getLsbD_or, BitVec.getLsbD_and,
    BitVec.getLsbD_shiftLeft, Nat.add_sub_cancel_left]
  have mask : (0xFFF : Word).getLsbD (12 + i) = false := by
    rw [show (0xFFF : Word) = BitVec.ofNat 32 (2 ^ 12 - 1) from rfl, BitVec.getLsbD_ofNat,
      Nat.testBit_two_pow_sub_one]
    simp
  rw [mask, Bool.and_false, Bool.false_or]
  by_cases fits : 12 + i < 32
  · simp [fits]
  · have high : value.getLsbD i = false := by
      refine Nat.testBit_lt_two_pow (Nat.lt_of_lt_of_le small ?_)
      exact Nat.pow_le_pow_right (by decide) (by omega)
    simp [fits, high]

end PageTableEntry

open PageTableEntry

theorem frame_mappedEntry {value : Word} (flags entry : Word) (small : value.toNat < 2 ^ 20) :
    frame (mappedEntry value flags entry) = value := by
  -- the three flags lie below the bit-field `frame`
  have low : ∀ k < 12, ∀ i, 12 ≤ i → (1#32 <<< k).getLsbD i = false := by
    intro k below i above
    rw [← BitVec.twoPow_eq, BitVec.getLsbD_twoPow]
    simp [show k ≠ i by omega]
  rw [mappedEntry]
  exact (frame_setFlag (low 2 (by decide))).trans <| (frame_setFlag (low 1 (by decide))).trans <|
    (frame_setFlag (low 0 (by decide))).trans (frame_setFrame entry small)

theorem present_mappedEntry (value flags entry : Word) :
    present (mappedEntry value flags entry) = true := by
  rw [present_iff, mappedEntry, getLsbD_setFlag (by decide) (by decide),
    getLsbD_setFlag (by decide) (by decide), ← present_iff, present_setFlag_present]

/-! ## Fields -/

theorem toNat_four_mul {index : Word} (small : index.toNat < 1024) :
    (4 * index).toNat = 4 * index.toNat := by
  bv_omega

namespace PageTable

section Table

variable {table : Word} (fits : table.toNat + 4096 ≤ 2 ^ 32)
include fits

theorem toNat_entryAddr {index : Word} (small : index.toNat < 1024) :
    (entryAddr table index).toNat = table.toNat + 4 * index.toNat := by
  rw [entryAddr, toNat_add_of_fits fits (by rw [toNat_four_mul small]; omega),
    toNat_four_mul small]

/-- An entry depends only on the bytes of its table. -/
theorem entry_congr {mem mem' : Mem} {index : Word} (small : index.toNat < 1024)
    (same : SameOn table 4096 mem mem') : entry mem' table index = entry mem table index := by
  have addr := toNat_entryAddr fits small
  refine load32_congr (by omega) (same.mono ?_)
  rintro x ⟨lower, upper⟩
  exact ⟨by omega, by omega⟩

theorem setEntry_apply {mem : Mem} {index value x : Word} (small : index.toNat < 1024)
    (outside : ¬ Covers table 4096 x) : setEntry table index value mem x = mem x := by
  have addr := toNat_entryAddr fits small
  refine store32_apply_of_not_covers (by omega) ?_
  rintro ⟨lower, upper⟩
  exact outside ⟨by omega, by omega⟩

theorem entry_setEntry_of_ne {mem : Mem} {index other value : Word} (small : index.toNat < 1024)
    (small' : other.toNat < 1024) (ne : other ≠ index) :
    entry (setEntry table index value mem) table other = entry mem table other := by
  have addr := toNat_entryAddr fits small
  have addr' := toNat_entryAddr fits small'
  have distinct : other.toNat ≠ index.toNat := fun same => ne (BitVec.eq_of_toNat_eq same)
  exact load32_store32_of_apart (by omega) (by omega) (by omega)

/-- Every entry of a cleared table is zero. -/
theorem entry_fill {mem : Mem} {index : Word} (small : index.toNat < 1024) :
    entry (fill mem table 0 sizeof) table index = 0 := by
  have addr := toNat_entryAddr fits small
  refine load32_fill_zero (by omega) ?_
  rintro x ⟨lower, upper⟩
  exact ⟨by omega, show x.toNat < table.toNat + 4096 by omega⟩

end Table

@[simp] theorem entry_setEntry_self (mem : Mem) (table index value : Word) :
    entry (setEntry table index value mem) table index = value :=
  load32_store32 mem _ value

end PageTable

namespace PageDirectory

section Directory

variable {dir : Word} (fits : dir.toNat + 8196 ≤ 2 ^ 32)
include fits

theorem toNat_entryAddr {index : Word} (small : index.toNat < 1024) :
    (entryAddr dir index).toNat = dir.toNat + 4 * index.toNat := by
  rw [entryAddr, toNat_add_of_fits fits (by rw [toNat_four_mul small]; omega),
    toNat_four_mul small]

theorem toNat_tableAddr {index : Word} (small : index.toNat < 1024) :
    (tableAddr dir index).toNat = dir.toNat + 4096 + 4 * index.toNat := by
  have offset : (4096 + 4 * index : Word).toNat = 4096 + 4 * index.toNat := by bv_omega
  rw [tableAddr, toNat_add_of_fits fits (by rw [offset]; omega), offset, Nat.add_assoc]

theorem toNat_physicalAddr : (physicalAddr dir).toNat = dir.toNat + 8192 :=
  toNat_add_of_fits fits (by decide)

/-- The fields of a directory depend only on its bytes. -/
theorem fields_congr {mem mem' : Mem} (same : SameOn dir 8196 mem mem') :
    physicalAddress mem' dir = physicalAddress mem dir ∧
    ∀ index : Word, index.toNat < 1024 →
      entry mem' dir index = entry mem dir index ∧ table mem' dir index = table mem dir index := by
  refine ⟨?_, fun index small => ⟨?_, ?_⟩⟩
  · have addr := toNat_physicalAddr fits
    refine load32_congr (by omega) (same.mono ?_)
    rintro x ⟨lower, upper⟩
    exact ⟨by omega, by omega⟩
  · have addr := toNat_entryAddr fits small
    refine load32_congr (by omega) (same.mono ?_)
    rintro x ⟨lower, upper⟩
    exact ⟨by omega, by omega⟩
  · have addr := toNat_tableAddr fits small
    refine load32_congr (by omega) (same.mono ?_)
    rintro x ⟨lower, upper⟩
    exact ⟨by omega, by omega⟩

/-! ### A new table -/

/-- The two stores by which a table is entered in a directory. -/
def enter (dir index value table : Word) (mem : Mem) : Mem :=
  setTable dir index table (setEntry dir index value mem)

variable {mem : Mem} {index value address : Word} (small : index.toNat < 1024)
include small

theorem enter_apply {x : Word} (outside : ¬ Covers dir 8196 x) :
    enter dir index value address mem x = mem x := by
  have addr := toNat_entryAddr fits small
  have addr' := toNat_tableAddr fits small
  refine (store32_apply_of_not_covers (by omega) ?_).trans
    (store32_apply_of_not_covers (by omega) ?_)
  · rintro ⟨lower, upper⟩
    exact outside ⟨by omega, by omega⟩
  · rintro ⟨lower, upper⟩
    exact outside ⟨by omega, by omega⟩

theorem entry_enter_self : entry (enter dir index value address mem) dir index = value := by
  have addr := toNat_entryAddr fits small
  have addr' := toNat_tableAddr fits small
  exact (load32_store32_of_apart (by omega) (by omega) (by omega)).trans
    (load32_store32 mem _ value)

omit fits small in
theorem table_enter_self : table (enter dir index value address mem) dir index = address :=
  load32_store32 _ _ address

theorem entry_enter_of_ne {other : Word} (small' : other.toNat < 1024) (ne : other ≠ index) :
    entry (enter dir index value address mem) dir other = entry mem dir other := by
  have addr := toNat_entryAddr fits small
  have addr' := toNat_tableAddr fits small
  have here := toNat_entryAddr fits small'
  have distinct : other.toNat ≠ index.toNat := fun same => ne (BitVec.eq_of_toNat_eq same)
  exact (load32_store32_of_apart (by omega) (by omega) (by omega)).trans
    (load32_store32_of_apart (by omega) (by omega) (by omega))

theorem table_enter_of_ne {other : Word} (small' : other.toNat < 1024) (ne : other ≠ index) :
    table (enter dir index value address mem) dir other = table mem dir other := by
  have addr := toNat_entryAddr fits small
  have addr' := toNat_tableAddr fits small
  have here := toNat_tableAddr fits small'
  have distinct : other.toNat ≠ index.toNat := fun same => ne (BitVec.eq_of_toNat_eq same)
  exact (load32_store32_of_apart (by omega) (by omega) (by omega)).trans
    (load32_store32_of_apart (by omega) (by omega) (by omega))

theorem physicalAddress_enter :
    physicalAddress (enter dir index value address mem) dir = physicalAddress mem dir := by
  have addr := toNat_entryAddr fits small
  have addr' := toNat_tableAddr fits small
  have here := toNat_physicalAddr fits
  exact (load32_store32_of_apart (by omega) (by omega) (by omega)).trans
    (load32_store32_of_apart (by omega) (by omega) (by omega))

end Directory

section Create

variable {dir : Word} (fits : dir.toNat + 8196 ≤ 2 ^ 32) (mem : Mem)

/-- The memory of a new directory. -/
def create (dir : Word) (mem : Mem) : Mem :=
  setPhysicalAddress dir dir (fill mem dir 0 sizeof)

theorem physicalAddress_create : physicalAddress (create dir mem) dir = dir :=
  load32_store32 _ _ dir

include fits

theorem create_apply {x : Word} (outside : ¬ Covers dir 8196 x) : create dir mem x = mem x := by
  have addr := toNat_physicalAddr fits
  refine (store32_apply_of_not_covers (by omega) ?_).trans (fill_apply_of_not_covers outside)
  rintro ⟨lower, upper⟩
  exact outside ⟨by omega, by omega⟩

/-- A new directory has no table. -/
theorem entry_create {index : Word} (small : index.toNat < 1024) :
    entry (create dir mem) dir index = 0 := by
  have addr := toNat_physicalAddr fits
  have here := toNat_entryAddr fits small
  refine (load32_store32_of_apart (by omega) (by omega) (by omega)).trans
    (load32_fill_zero (by omega) ?_)
  rintro x ⟨lower, upper⟩
  exact ⟨by omega, show x.toNat < dir.toNat + 8196 by omega⟩

end Create

theorem present_eq (mem : Mem) (dir index : Word) :
    present mem dir index = PageTableEntry.present (entry mem dir index) := rfl

/-- The value entered for a table has the present bit. -/
theorem present_entered (address flags : Word) :
    PageTableEntry.present (address ||| flags ||| pagePresent) = true := by
  rw [present_iff, BitVec.getLsbD_or]
  simp [pagePresent]

end PageDirectory

/-! ## The walk of the kernel -/

/-- The frame of an entry, if it is present. -/
def backing (entry : Word) : Option Word :=
  if present entry then some (frame entry) else none

theorem backing_mappedEntry {value : Word} (flags entry : Word) (small : value.toNat < 2 ^ 20) :
    backing (mappedEntry value flags entry) = some value := by
  rw [backing, if_pos (present_mappedEntry value flags entry),
    frame_mappedEntry flags entry small]

theorem backing_setFlag_absent (entry : Word) :
    backing (setFlag pagePresent false entry) = none := by
  rw [backing, present_setFlag_present]
  rfl

/-- The frame of the page of a virtual address, if it is mapped. -/
def lookup (mem : Mem) (dir virt : Word) : Option Word :=
  if PageDirectory.present mem dir (pdIndex virt) then
    backing (PageTable.entry mem (PageDirectory.table mem dir (pdIndex virt)) (ptIndex virt))
  else none

theorem pagingIsPagePresent_eq (dir virt : Word) (s : Machine) :
    pagingIsPagePresent dir virt s = (lookup s.mem dir virt).isSome := by
  rw [pagingIsPagePresent, lookup]
  split
  · dsimp only
    rw [backing]
    split
    · rename_i here
      rw [here]
      rfl
    · rename_i here
      exact Bool.eq_false_of_not_eq_true here
  · rfl

theorem pagingVirtualToPhysical_eq (dir virt : Word) (s : Machine) :
    pagingVirtualToPhysical dir virt s =
      match lookup s.mem dir virt with
      | none => 0
      | some frame => (frame <<< 12) ||| (virt &&& (0xFFF : Word)) := by
  rw [pagingVirtualToPhysical, lookup]
  split
  · dsimp only
    rw [backing]
    split <;> rfl
  · rfl

theorem lookup_eq_some {mem : Mem} {dir virt value : Word}
    (found : lookup mem dir virt = some value) :
    PageDirectory.present mem dir (pdIndex virt) = true ∧
      present (PageTable.entry mem (PageDirectory.table mem dir (pdIndex virt))
        (ptIndex virt)) = true ∧
      frame (PageTable.entry mem (PageDirectory.table mem dir (pdIndex virt))
        (ptIndex virt)) = value := by
  rw [lookup] at found
  split at found
  · rename_i here
    rw [backing] at found
    split at found
    · rename_i entry
      exact ⟨here, entry, Option.some.inj found⟩
    · contradiction
  · contradiction

theorem lookup_of_absent {mem : Mem} {dir virt : Word}
    (absent : PageDirectory.present mem dir (pdIndex virt) = false) :
    lookup mem dir virt = none := by
  rw [lookup, absent]
  rfl

theorem lookup_of_present {mem : Mem} {dir virt : Word}
    (here : PageDirectory.present mem dir (pdIndex virt) = true) :
    lookup mem dir virt =
      backing
        (PageTable.entry mem (PageDirectory.table mem dir (pdIndex virt)) (ptIndex virt)) := by
  rw [lookup, if_pos here]

end CocosOS.Kernel.Memory
