import CocosOS.Kernel.Memory.PageWalk

/-!
# Paging without heap

`paging_map_page` does not look at what `Memory_alloc` answers. When the answer to the request for a
table is `NULL`, the page at address zero is cleared and becomes the table: the directory entry gets
the present bit, `tables_virtual` the null pointer (`ensureTable_of_null`). The stores that follow
may set further bits, but none clears the present bit again, whatever the bitmap lies on
(`present_ensureFrame_of_null`). So no call that finds no memory leaves its directory as it was
(`out_of_heap_unclean`).
-/

set_option autoImplicit false

namespace CocosOS.Kernel.Memory

open Library.ByteMemory Library.WordArithmetic

/-- The present bit of a directory entry is a bit of its first byte. -/
theorem present_eq_getLsbD (mem : Mem) (dir index : Word) :
    PageDirectory.present mem dir index =
      (mem (PageDirectory.entryAddr dir index)).getLsbD 0 := by
  rw [PageDirectory.present_eq, PageTableEntry.present_iff, PageDirectory.entry, load32,
    BitVec.getLsbD_append]
  rfl

/-- Marking a frame clears no bit. -/
theorem getLsbD_takeFrame {s : Machine} {frame x : Word} {k : ℕ}
    (set : (s.mem x).getLsbD k = true) :
    ((takeFrame frame s).mem x).getLsbD k = true := by
  by_cases same : x = bitmapAddr s frame
  · rw [same, mem_takeFrame, store8_apply_self, BitVec.getLsbD_or, ← same, set, Bool.true_or]
  · rw [mem_takeFrame, store8_apply_of_ne same, set]

section Null

/-- The machine after a request for a table was answered with `NULL`. -/
def nullTable (dir virt flags : Word) (mem' : Mem) (s : Machine) : Machine :=
  { s with
    mem := PageDirectory.enter dir (pdIndex virt) (0 ||| flags ||| pagePresent) 0
      (fill mem' 0 0 PageTable.sizeof) }

variable {alloc : MemoryAlloc} {dir virt flags : Word} {s : Machine} {mem' : Mem}

theorem ensureTable_of_null (absent : PageDirectory.present s.mem dir (pdIndex virt) = false)
    (null : alloc PageTable.sizeof s.mem = some (0, mem')) :
    ensureTable alloc dir virt flags s = .ok (nullTable dir virt flags mem' s) :=
  ensureTable_of_absent absent null

variable (above : 4096 ≤ dir.toNat) (fits : dir.toNat + 8196 ≤ 2 ^ 32)
include above fits

/-- The page at address zero is cleared. -/
theorem nullTable_apply {x : Word} (low : x.toNat < 4096) :
    (nullTable dir virt flags mem' s).mem x = 0 := by
  have outside : ¬ Covers dir 8196 x := not_covers_iff.mpr (Or.inl (by omega))
  have page : Covers 0 PageTable.sizeof.toNat x := ⟨Nat.zero_le _, by
    rw [show PageTable.sizeof.toNat = 4096 from rfl]
    omega⟩
  exact (PageDirectory.enter_apply fits (pdIndex_lt virt) outside).trans
    (fill_apply_of_covers page)

omit above in
theorem entry_nullTable :
    PageDirectory.entry (nullTable dir virt flags mem' s).mem dir (pdIndex virt) =
      flags ||| pagePresent := by
  rw [nullTable, PageDirectory.entry_enter_self fits (pdIndex_lt virt),
    show (0 : Word) ||| flags = flags from BitVec.zero_or]

omit above in
theorem present_nullTable :
    PageDirectory.present (nullTable dir virt flags mem' s).mem dir (pdIndex virt) = true := by
  rw [PageDirectory.present_eq, nullTable, PageDirectory.entry_enter_self fits (pdIndex_lt virt)]
  exact PageDirectory.present_entered 0 flags

omit above fits in
theorem table_nullTable :
    PageDirectory.table (nullTable dir virt flags mem' s).mem dir (pdIndex virt) = 0 :=
  PageDirectory.table_enter_self

/-- **What follows does not clear the present bit again**, wherever the bitmap is. -/
theorem present_ensureFrame_of_null {s' : Machine}
    (here : PageDirectory.present s.mem dir (pdIndex virt) = true)
    (null : PageDirectory.table s.mem dir (pdIndex virt) = 0)
    (call : ensureFrame dir virt flags s = .ok s') :
    PageDirectory.present s'.mem dir (pdIndex virt) = true := by
  rw [ensureFrame, null] at call
  dsimp only at call
  split at call
  · obtain rfl := Except.ok.inj call
    exact here
  · obtain ⟨⟨frame, s₁⟩, taken, last⟩ := bind_eq_ok.mp call
    obtain ⟨-, rfl⟩ := pagingAllocateFrame_ok taken
    obtain rfl := Except.ok.inj last
    have addr := PageDirectory.toNat_entryAddr fits (pdIndex_lt virt)
    have outside : ¬ Covers 0 4096 (PageDirectory.entryAddr dir (pdIndex virt)) :=
      not_covers_iff.mpr (Or.inr (by
        rw [show (0 : Word).toNat = 0 from rfl]
        omega))
    rw [present_eq_getLsbD] at here ⊢
    dsimp only
    rw [PageTable.setEntry_apply (by decide) (ptIndex_lt virt) outside]
    exact getLsbD_takeFrame here

/-- **A call that returns leaves the directory entry present.** -/
theorem present_pagingMapPage_of_null {answer : Word} {s' : Machine}
    (absent : PageDirectory.present s.mem dir (pdIndex virt) = false)
    (null : alloc PageTable.sizeof s.mem = some (0, mem'))
    (call : pagingMapPage alloc dir virt flags s = .ok (answer, s')) :
    PageDirectory.present s'.mem dir (pdIndex virt) = true := by
  obtain ⟨s₁, tables, rest⟩ := bind_eq_ok.mp call
  obtain ⟨s₂, frames, last⟩ := bind_eq_ok.mp rest
  obtain ⟨-, rfl⟩ := Prod.mk.inj (Except.ok.inj last)
  obtain rfl := Except.ok.inj ((ensureTable_of_null absent null).symm.trans tables)
  exact present_ensureFrame_of_null above fits (present_nullTable fits) table_nullTable frames

end Null

/-! ## What is asked of a call -/

/-- The call returns, and has changed neither the directory, nor the marks, nor the page at address
zero, and the page is absent. -/
def FailsCleanly (alloc : MemoryAlloc) (dir virt flags : Word) (s : Machine) : Prop :=
  ∃ answer s', pagingMapPage alloc dir virt flags s = .ok (answer, s') ∧
    (∀ index : Word, index.toNat < 1024 →
      PageDirectory.entry s'.mem dir index = PageDirectory.entry s.mem dir index ∧
      PageDirectory.table s'.mem dir index = PageDirectory.table s.mem dir index) ∧
    (∀ i < s.totalFrames.toNat, marks s' i = marks s i) ∧
    (∀ x : Word, x.toNat < 4096 → s'.mem x = s.mem x) ∧
    pagingIsPagePresent dir virt s' = false

theorem not_failsCleanly {alloc : MemoryAlloc} {dir virt flags : Word} {s : Machine} {mem' : Mem}
    (above : 4096 ≤ dir.toNat) (fits : dir.toNat + 8196 ≤ 2 ^ 32)
    (absent : PageDirectory.present s.mem dir (pdIndex virt) = false)
    (null : alloc PageTable.sizeof s.mem = some (0, mem')) :
    ¬ FailsCleanly alloc dir virt flags s := by
  rintro ⟨answer, s', call, fields, -⟩
  have here := present_pagingMapPage_of_null above fits absent null call
  rw [PageDirectory.present_eq, (fields _ (pdIndex_lt virt)).1, ← PageDirectory.present_eq,
    absent] at here
  contradiction

/-- **A call that finds no memory for a table never fails cleanly**, in whatever state it is made.
Its first statement clears the page at address zero and enters it as a table that is present. -/
theorem out_of_heap_unclean (alloc : MemoryAlloc) {dir virt flags : Word} {s : Machine}
    {mem' : Mem} (above : 4096 ≤ dir.toNat) (fits : dir.toNat + 8196 ≤ 2 ^ 32)
    (absent : PageDirectory.present s.mem dir (pdIndex virt) = false)
    (null : alloc PageTable.sizeof s.mem = some (0, mem')) :
    (∃ s₁, ensureTable alloc dir virt flags s = .ok s₁ ∧
      (∀ x : Word, x.toNat < 4096 → s₁.mem x = 0) ∧
      PageDirectory.entry s₁.mem dir (pdIndex virt) = flags ||| pagePresent ∧
      PageDirectory.table s₁.mem dir (pdIndex virt) = 0) ∧
    ¬ FailsCleanly alloc dir virt flags s :=
  ⟨⟨_, ensureTable_of_null absent null, fun _ low => nullTable_apply above fits low,
    entry_nullTable fits, table_nullTable⟩, not_failsCleanly above fits absent null⟩

/-- A run on the heap of the kernel after which nothing is left of it: a directory, a bitmap for 257
frames, and one block for the rest. -/
theorem exists_fullHeap : ∃ s dirs, WalkRun 0x100000 0x100000 (fun _ _ => True) s dirs ∧
    0x10000C ∈ dirs ∧ PageDirectory.present s.mem 0x10000C (pdIndex 0) = false ∧
    ∃ mem', memoryAlloc ⟨0x100000, 0x200000⟩ PageTable.sizeof s.mem = some (0, mem') := by
  have check : (runCalls (memoryAlloc ⟨0x100000, 0x100000 + 0x100000⟩) (fun _ _ => True)
      [.create, .initFrames 0x101000, .alloc 1040308] (onesMachine 0x100000 0x100000) []).any
      (fun (s, dirs) => decide (0x10000C ∈ dirs) &&
        !PageDirectory.present s.mem 0x10000C (pdIndex 0) &&
        (memoryAlloc ⟨0x100000, 0x200000⟩ PageTable.sizeof s.mem).any fun answer =>
          answer.1 = 0) = true := by
    decide +kernel
  obtain ⟨⟨s, dirs⟩, ran, found⟩ := (Option.any_eq_true _ _).mp check
  rw [Bool.and_eq_true, Bool.and_eq_true, decide_eq_true_eq, Bool.not_eq_true'] at found
  obtain ⟨⟨p, mem'⟩, call, null⟩ := (Option.any_eq_true _ _).mp found.2
  obtain rfl : p = 0 := of_decide_eq_true null
  have started : WalkRun 0x100000 0x100000 (fun _ _ => True) (onesMachine 0x100000 0x100000) [] :=
    .init (fun _ => 1) rfl rfl rfl
  exact ⟨s, dirs, started.runCalls _ ran, found.1.1, found.1.2, mem', call⟩

theorem out_of_heap_unclean_full : ∃ s dirs, WalkRun 0x100000 0x100000 (fun _ _ => True) s dirs ∧
    0x10000C ∈ dirs ∧
    ¬ FailsCleanly (memoryAlloc ⟨0x100000, 0x200000⟩) 0x10000C 0 pageWrite s := by
  obtain ⟨s, dirs, run, member, absent, mem', null⟩ := exists_fullHeap
  exact ⟨s, dirs, run, member, (out_of_heap_unclean _ (by decide) (by decide) absent null).2⟩

/-- On a full heap, the first page of an empty directory is mapped through a table at `NULL`. -/
theorem null_becomes_table :
    ¬ ∀ s dirs, WalkRun 0x100000 0x100000 (fun _ _ => True) s dirs → ∀ dir ∈ dirs, dir ≠ 0 →
      ∀ virt flags mem', PageDirectory.present s.mem dir (pdIndex virt) = false →
      memoryAlloc ⟨0x100000, 0x200000⟩ PageTable.sizeof s.mem = some (0, mem') →
      FailsCleanly (memoryAlloc ⟨0x100000, 0x200000⟩) dir virt flags s := by
  intro clean
  obtain ⟨s, dirs, run, member, absent, mem', null⟩ := exists_fullHeap
  exact not_failsCleanly (by decide) (by decide) absent null
    (clean s dirs run _ member (by decide) 0 pageWrite mem' absent null)

end CocosOS.Kernel.Memory
