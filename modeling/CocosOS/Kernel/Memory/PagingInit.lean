import CocosOS.Kernel.Memory.PagingRefinement

/-!
# What `paging_init` leaves behind

`paging_init` releases the frames from 256 on and then maps the first 1024 pages of the
directory it creates. Each of these pages takes the lowest free frame, so after `k` of them the
pages below `k` hold the frames from 256 to `256 + k` in order (`mappedPool`, `acquire_mappedPool`).
Only the first of them makes a table. So `paging_init` returns exactly when there are 1280
frames, as long as its three requests for memory are answered (`pagingInit_spec`,
`pagingInit_returns`).
-/

set_option autoImplicit false

namespace CocosOS.Kernel.Memory

open Library.ByteMemory Library.SharedPool

/-! ## The pool while the first pages are mapped -/

/-- The pool after the first `k` pages of the directory were mapped. -/
def mappedPool (totalMemory dir : Word) (k : ℕ) : Assignment Page where
  total := (totalMemory / pageSize).toNat
  taken i := decide (i < 256 + k)
  unitOf page := if page.1 = dir ∧ page.2.toNat < k then some (256 + page.2.toNat) else none

theorem mappedPool_zero (totalMemory dir : Word) :
    mappedPool totalMemory dir 0 = freshPool totalMemory := by
  refine Assignment.ext rfl rfl ?_
  funext page
  exact if_neg fun both => Nat.not_lt_zero _ both.2

/-- The pages of the first four mebibytes hold the frames from 256 on. -/
theorem unitOf_mappedPool (totalMemory dir : Word) {virt : Word}
    (first : virt.toNat < 0x400000) :
    (mappedPool totalMemory dir 1024).unitOf (dir, pageOf virt) =
      some (256 + (pageOf virt).toNat) := by
  have page := toNat_pageOf virt
  have below : (pageOf virt).toNat < 1024 := by omega
  exact if_pos ⟨rfl, below⟩

/-- The next page takes the next frame. -/
theorem give_mappedPool (totalMemory dir : Word) {k : ℕ} (small : k < 2 ^ 20) :
    (mappedPool totalMemory dir k).give (dir, BitVec.ofNat 20 k) (256 + k) =
      mappedPool totalMemory dir (k + 1) := by
  have number : (BitVec.ofNat 20 k).toNat = k := by
    rw [BitVec.toNat_ofNat]
    exact Nat.mod_eq_of_lt small
  refine Assignment.ext rfl ?_ ?_
  · funext i
    by_cases same : i = 256 + k
    · rw [same, Assignment.taken_give_self]
      exact (decide_eq_true (by omega)).symm
    · rw [Assignment.taken_give_of_ne _ _ _ same]
      exact decide_eq_decide.mpr ⟨fun lt => by omega, fun lt => by omega⟩
  · funext page
    by_cases same : page = (dir, BitVec.ofNat 20 k)
    · rw [same, Assignment.unitOf_give_self, mappedPool]
      dsimp only
      rw [number, if_pos ⟨rfl, Nat.lt_succ_self k⟩]
    · rw [Assignment.unitOf_give_of_ne _ _ _ same]
      have other : ¬ (page.1 = dir ∧ page.2.toNat = k) := by
        rintro ⟨first, second⟩
        refine same (Prod.ext first (BitVec.eq_of_toNat_eq ?_))
        rw [second, number]
      have iff : (page.1 = dir ∧ page.2.toNat < k) ↔ (page.1 = dir ∧ page.2.toNat < k + 1) := by
        constructor
        · rintro ⟨first, below⟩
          exact ⟨first, by omega⟩
        · rintro ⟨first, below⟩
          have ne : page.2.toNat ≠ k := fun eq => other ⟨first, eq⟩
          exact ⟨first, by omega⟩
      exact if_congr iff rfl rfl

/-- **Mapping the next page takes the next frame**, as long as there is one. -/
theorem acquire_mappedPool (totalMemory dir : Word) {k : ℕ} (small : k < 2 ^ 20) :
    (mappedPool totalMemory dir k).acquire (dir, BitVec.ofNat 20 k) =
      if 256 + k < (totalMemory / pageSize).toNat then some (mappedPool totalMemory dir (k + 1))
      else none := by
  have number : (BitVec.ofNat 20 k).toNat = k := by
    rw [BitVec.toNat_ofNat]
    exact Nat.mod_eq_of_lt small
  have absent : (mappedPool totalMemory dir k).unitOf (dir, BitVec.ofNat 20 k) = none := by
    refine if_neg fun both => ?_
    have below := both.2
    rw [number] at below
    exact Nat.lt_irrefl k below
  rw [Assignment.acquire_of_not_held absent]
  split
  · rename_i room
    have lowest : (mappedPool totalMemory dir k).lowestFree = some (256 + k) := by
      refine Assignment.lowestFree_eq_some.mpr ⟨room, ?_, fun j below => decide_eq_true below⟩
      exact decide_eq_false (Nat.lt_irrefl _)
    rw [lowest, Option.map_some, give_mappedPool totalMemory dir small]
  · rename_i full
    have none_free : (mappedPool totalMemory dir k).lowestFree = none := by
      refine Assignment.lowestFree_eq_none.mpr fun i lt => decide_eq_true ?_
      have bound : i < (totalMemory / pageSize).toNat := lt
      omega
    rw [none_free, Option.map_none]

/-! ## The loop that maps pages -/

theorem pageOf_ofNat (k : ℕ) : pageOf (BitVec.ofNat 32 (4096 * k)) = BitVec.ofNat 20 k := by
  refine BitVec.eq_of_toNat_eq ?_
  rw [toNat_pageOf, BitVec.toNat_ofNat, BitVec.toNat_ofNat]
  omega

theorem pdIndex_ofNat {k : ℕ} (small : k < 1024) :
    pdIndex (BitVec.ofNat 32 (4096 * k)) = 0 := by
  refine BitVec.eq_of_toNat_eq ?_
  rw [toNat_pdIndex, BitVec.toNat_ofNat]
  show _ = 0
  omega

theorem ofNat_add_pageSize (k : ℕ) :
    BitVec.ofNat 32 (4096 * k) + pageSize = BitVec.ofNat 32 (4096 * (k + 1)) := by
  rw [Nat.mul_succ]
  exact (BitVec.ofNat_add _ _).symm

/-- The first 1024 pages share a table. -/
theorem TableNonNull.of_firstTable {A : Allocator} {dir : Word} {s : Machine}
    (nonnull : TableNonNull A dir 0 s) {k : ℕ} (small : k < 1024) :
    TableNonNull A dir (BitVec.ofNat 32 (4096 * k)) s := by
  rw [TableNonNull, pdIndex_ofNat small]
  exact nonnull

theorem tableNonNull_of_present {A : Allocator} {dir virt : Word} {s : Machine}
    (present : PageDirectory.present s.mem dir (pdIndex virt) = true) :
    TableNonNull A dir virt s := by
  intro absent
  rw [present] at absent
  contradiction

/-- One round of the loop: the next page takes the next frame. -/
theorem pagingMapPage_mappedPool {A : Allocator} {totalMemory : Word} {k : ℕ} {s : Machine}
    (small : k < 1024)
    (inv : PagingInv A s [s.kernelDirectory] (mappedPool totalMemory s.kernelDirectory k))
    (nonnull : TableNonNull A s.kernelDirectory 0 s) (flags : Word) :
    match pagingMapPage A.alloc s.kernelDirectory (BitVec.ofNat 32 (4096 * k)) flags s with
    | .ok (_, s') =>
        PagingInv A s' [s'.kernelDirectory] (mappedPool totalMemory s'.kernelDirectory (k + 1)) ∧
        PageDirectory.present s'.mem s'.kernelDirectory 0 = true ∧ Kept s s' ∧
        256 + k < (totalMemory / pageSize).toNat
    | .error .panic => (totalMemory / pageSize).toNat ≤ 256 + k
    | .error .endless =>
        PageDirectory.present s.mem s.kernelDirectory 0 = false ∧
          A.alloc PageTable.sizeof s.mem = none := by
  have step := inv.pagingMapPage_spec List.mem_cons_self (nonnull.of_firstTable small) flags
  rw [pageOf_ofNat, acquire_mappedPool totalMemory _ (by omega), pdIndex_ofNat small] at step
  cases mapped : pagingMapPage A.alloc s.kernelDirectory (BitVec.ofNat 32 (4096 * k)) flags s with
  | error stop =>
      rw [mapped] at step
      cases stop with
      | panic =>
          refine Nat.le_of_not_lt fun room => ?_
          rw [if_pos room] at step
          contradiction
      | endless => exact step
  | ok answer =>
      obtain ⟨virt, s'⟩ := answer
      rw [mapped] at step
      obtain ⟨-, present, m', acquired, inv', kept⟩ := step
      have room : 256 + k < (totalMemory / pageSize).toNat := by
        by_contra full
        rw [if_neg full] at acquired
        contradiction
      rw [if_pos room, Option.some.injEq] at acquired
      subst acquired
      rw [← kept.kernelDirectory] at inv' present
      exact ⟨inv', present, kept, room⟩

/-- **The loop maps pages as long as there are frames.** It makes a table for the first page
only, and this is the one place where `Memory_alloc` may keep it from returning. -/
theorem mapPagesLoop_spec {A : Allocator} {totalMemory : Word} (rounds : ℕ) :
    ∀ {k : ℕ} {s : Machine}, k + rounds ≤ 1024 →
    PagingInv A s [s.kernelDirectory] (mappedPool totalMemory s.kernelDirectory k) →
    TableNonNull A s.kernelDirectory 0 s →
    match mapPagesLoop A.alloc rounds (BitVec.ofNat 32 (4096 * k)) s with
    | .ok s' =>
        PagingInv A s' [s'.kernelDirectory]
          (mappedPool totalMemory s'.kernelDirectory (k + rounds)) ∧
        Kept s s' ∧ (rounds = 0 ∨ 256 + (k + rounds) ≤ (totalMemory / pageSize).toNat)
    | .error .panic => (totalMemory / pageSize).toNat < 256 + (k + rounds)
    | .error .endless =>
        PageDirectory.present s.mem s.kernelDirectory 0 = false ∧
          A.alloc PageTable.sizeof s.mem = none := by
  induction rounds with
  | zero => exact fun _ inv _ => ⟨inv, Kept.refl _, Or.inl rfl⟩
  | succ rounds ih =>
      intro k s range inv nonnull
      have step :=
        pagingMapPage_mappedPool (k := k) (by omega) inv nonnull (pagePresent ||| pageWrite)
      rw [mapPagesLoop]
      cases mapped : pagingMapPage A.alloc s.kernelDirectory (BitVec.ofNat 32 (4096 * k))
          (pagePresent ||| pageWrite) s with
      | error stop =>
          rw [mapped] at step
          cases stop with
          | panic =>
              have full : (totalMemory / pageSize).toNat ≤ 256 + k := step
              show (totalMemory / pageSize).toNat < 256 + (k + (rounds + 1))
              omega
          | endless => exact step
      | ok answer =>
          obtain ⟨virt, s₁⟩ := answer
          rw [mapped] at step
          obtain ⟨inv₁, present, kept₁, room⟩ := step
          -- the table of the first page serves the others
          have nonnull₁ : TableNonNull A s₁.kernelDirectory 0 s₁ := tableNonNull_of_present present
          have rest := ih (k := k + 1) (s := s₁) (by omega) inv₁ nonnull₁
          show match mapPagesLoop A.alloc rounds (BitVec.ofNat 32 (4096 * k) + pageSize) s₁ with
            | .ok s' => _
            | .error .panic => _
            | .error .endless => _
          rw [ofNat_add_pageSize]
          cases looped : mapPagesLoop A.alloc rounds (BitVec.ofNat 32 (4096 * (k + 1))) s₁ with
          | error stop =>
              rw [looped] at rest
              cases stop with
              | panic =>
                  have full : (totalMemory / pageSize).toNat < 256 + (k + 1 + rounds) := rest
                  show (totalMemory / pageSize).toNat < 256 + (k + (rounds + 1))
                  omega
              | endless =>
                  rw [present] at rest
                  exact absurd rest.1 (by decide)
          | ok s₂ =>
              rw [looped] at rest
              obtain ⟨inv₂, kept₂, enough⟩ := rest
              rw [show k + 1 + rounds = k + (rounds + 1) by omega] at inv₂ enough
              refine ⟨inv₂, kept₁.trans kept₂, Or.inr ?_⟩
              omega

/-! ## The whole of `paging_init` -/

/-- The machine before `paging_init`: there are no frames yet, and the counter is zero. -/
structure Booting (A : Allocator) (s : Machine) : Prop where
  allocated : ∃ blocks, A.Allocated blocks s.mem
  totalFrames : s.totalFrames = 0
  usedFrames : s.usedFrames = 0

/-- Before `paging_init` the pool is empty. -/
theorem Booting.inv {A : Allocator} {s : Machine} (boot : Booting A s) :
    PagingInv A s [] ⟨0, fun _ => false, fun _ => none⟩ := by
  obtain ⟨blocks, allocated⟩ := boot.allocated
  have no_frames : s.totalFrames.toNat = 0 := by
    rw [boot.totalFrames]
    rfl
  have dead : ∀ r : Region, ¬ r.Live s [] := by
    intro r live
    cases r with
    | bitmap =>
        rw [Region.Live, no_frames] at live
        exact Nat.lt_irrefl 0 live
    | directory dir => exact List.not_mem_nil live
    | table dir index => exact List.not_mem_nil live.1
  refine ⟨⟨by omega, ⟨blocks, allocated, fun r live => absurd live (dead r)⟩,
    fun r _ live => absurd live (dead r)⟩, ⟨no_frames.symm, fun i lt => by omega, ?_, ?_⟩, ?_⟩
  · exact fun dir member => absurd member List.not_mem_nil
  · exact fun _ _ _ => rfl
  · refine ⟨fun i _ lt => absurd lt (Nat.not_lt_zero i), ?_, ?_, fun i _ lt =>
      absurd lt (Nat.not_lt_zero i)⟩
    · rintro key i ⟨⟩
    · rintro key key' i ⟨⟩

/-- The three requests of `paging_init` are not answered with `NULL`. -/
structure BootNonNull (A : Allocator) (totalMemory : Word) (s : Machine) : Prop where
  bitmap : BitmapNonNull A totalMemory s
  directory : ∀ s₁, initFrames A.alloc totalMemory s = .ok s₁ →
    ∀ dir s₂, pagingCreateDirectory A.alloc s₁ = .ok (dir, s₂) → dir ≠ 0
  table : ∀ s₁, initFrames A.alloc totalMemory s = .ok s₁ →
    ∀ dir s₂, pagingCreateDirectory A.alloc s₁ = .ok (dir, s₂) → TableNonNull A dir 0 s₂

theorem bootNonNull_of_neverNull {A : Allocator} (never : A.NeverNull) (totalMemory : Word)
    (s : Machine) : BootNonNull A totalMemory s := by
  refine ⟨fun p mem' call => Or.inl (never _ _ _ _ call), fun s₁ _ dir s₂ call => ?_,
    fun s₁ _ dir s₂ _ => tableNonNull_of_neverNull never dir 0 s₂⟩
  obtain ⟨mem', answer, -⟩ := pagingCreateDirectory_eq_ok.mp call
  exact never _ _ _ _ answer

/-- `paging_init` up to its second loop. -/
def initDirectory (alloc : MemoryAlloc) (totalMemory : Word) (s : Machine) :
    Except Stop Machine := do
  let s ← initFrames alloc totalMemory s
  let (dir, s) ← pagingCreateDirectory alloc s
  pure { s with kernelDirectory := dir }

theorem pagingInit_eq (alloc : MemoryAlloc) (totalMemory : Word) (s : Machine) :
    pagingInit alloc totalMemory s =
      (initDirectory alloc totalMemory s >>= mapPagesLoop alloc 1024 0) >>= fun s =>
        pure (enablePaging (pagingSwitchDirectory s.kernelDirectory s)) := by
  simp only [pagingInit, initDirectory, bind_assoc, pure_bind]

/-- The pool when the second loop of `paging_init` starts. -/
theorem initDirectory_spec {A : Allocator} {totalMemory : Word} {s s' : Machine}
    (boot : Booting A s) (nonnull : BootNonNull A totalMemory s)
    (call : initDirectory A.alloc totalMemory s = .ok s') :
    PagingInv A s' [s'.kernelDirectory] (mappedPool totalMemory s'.kernelDirectory 0) ∧
      TableNonNull A s'.kernelDirectory 0 s' ∧ s'.totalFrames = totalMemory / pageSize ∧
      surplus s' = totalMemory / pageSize := by
  rw [initDirectory] at call
  obtain ⟨s₁, frames, rest⟩ := bind_eq_ok.mp call
  obtain ⟨⟨dir, s₂⟩, created, last⟩ := bind_eq_ok.mp rest
  obtain rfl := Except.ok.inj last
  obtain ⟨inv₁, total₁, surplus₁, -⟩ :=
    boot.inv.initFrames_spec boot.totalFrames nonnull.bitmap frames
  obtain ⟨-, inv₂, kept₂⟩ := inv₁.pagingCreateDirectory_spec created
    (nonnull.directory s₁ frames dir s₂ created)
  rw [boot.usedFrames] at surplus₁
  rw [mappedPool_zero]
  refine ⟨inv₂.congr rfl rfl rfl, nonnull.table s₁ frames dir s₂ created,
    kept₂.totalFrames.trans total₁, ?_⟩
  exact (kept₂.surplus.trans surplus₁).trans (BitVec.sub_zero _)

/-- **`paging_init` returns only if there are 1280 frames.** Then the pages below 1024 of the
directory hold the frames from 256 on, and the number of free frames that is reported is over
the number of clear marks by the number of all frames. -/
theorem pagingInit_spec {A : Allocator} {totalMemory : Word} {s s' : Machine}
    (boot : Booting A s) (nonnull : BootNonNull A totalMemory s)
    (call : pagingInit A.alloc totalMemory s = .ok s') :
    PagingInv A s' [s'.kernelDirectory] (mappedPool totalMemory s'.kernelDirectory 1024) ∧
      s'.totalFrames = totalMemory / pageSize ∧ surplus s' = totalMemory / pageSize ∧
      1280 ≤ (totalMemory / pageSize).toNat := by
  rw [pagingInit_eq] at call
  obtain ⟨s₂, looped, last⟩ := bind_eq_ok.mp call
  obtain ⟨s₁, started, mapped⟩ := bind_eq_ok.mp looped
  obtain rfl := Except.ok.inj last
  obtain ⟨inv₁, table, total₁, surplus₁⟩ := initDirectory_spec boot nonnull started
  have loop := mapPagesLoop_spec 1024 (by decide) inv₁ table
  rw [show BitVec.ofNat 32 (4096 * 0) = (0 : Word) from rfl, mapped] at loop
  obtain ⟨inv₂, kept₂, enough⟩ := loop
  refine ⟨inv₂.congr rfl rfl rfl, kept₂.totalFrames.trans total₁,
    kept₂.surplus.trans surplus₁, ?_⟩
  omega

/-- **`paging_init` returns if there are 1280 frames** and its requests are answered. -/
theorem pagingInit_returns {A : Allocator} {totalMemory : Word} {s s₁ : Machine}
    (boot : Booting A s) (nonnull : BootNonNull A totalMemory s)
    (started : initDirectory A.alloc totalMemory s = .ok s₁)
    (answered : A.alloc PageTable.sizeof s₁.mem ≠ none)
    (enough : 1280 ≤ (totalMemory / pageSize).toNat) :
    ∃ s', pagingInit A.alloc totalMemory s = .ok s' := by
  obtain ⟨inv₁, table, -, -⟩ := initDirectory_spec boot nonnull started
  have loop := mapPagesLoop_spec 1024 (by decide) inv₁ table
  rw [show BitVec.ofNat 32 (4096 * 0) = (0 : Word) from rfl] at loop
  rw [pagingInit_eq, started]
  cases mapped : mapPagesLoop A.alloc 1024 0 s₁ with
  | error stop =>
      rw [mapped] at loop
      cases stop with
      | panic =>
          have few : (totalMemory / pageSize).toNat < 256 + (0 + 1024) := loop
          omega
      | endless => exact absurd loop.2 answered
  | ok s₂ =>
      refine ⟨enablePaging (pagingSwitchDirectory s₂.kernelDirectory s₂), ?_⟩
      show (mapPagesLoop A.alloc 1024 0 s₁ >>= _) = _
      rw [mapped]
      rfl

end CocosOS.Kernel.Memory
