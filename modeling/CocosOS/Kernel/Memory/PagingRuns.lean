import CocosOS.Kernel.Memory.KernelBoot

/-!
# Runs of paging

A run starts with `paging_init`. Then, in any order and number, directories are created, pages
of these directories are mapped with any flags and unmapped, and other parts of the kernel call
`Memory_alloc`. `PagingRun` carries the list of directories and the pool events of the run.

The allocator is a parameter that never answers `NULL`. In every state of every run the machine
shows the pool that replays the events (`page_tables_refine_map`), and the entries that are
present stand one to one for the marked frames from 256 on (`frame_ownership`).
-/

set_option autoImplicit false

namespace CocosOS.Kernel.Memory

open Library.ByteMemory Library.SharedPool

/-- The states of a run after `paging_init`, with the directories there are and what the pool
was asked for. -/
inductive PagingRun (A : Allocator) (totalMemory : Word) :
    Machine → List Word → List (Event Page) → Prop
  | init {s s' : Machine} (boot : Booting A s)
      (call : pagingInit A.alloc totalMemory s = .ok s') :
      PagingRun A totalMemory s' [s'.kernelDirectory] []
  | create {s s' : Machine} {dirs : List Word} {events : List (Event Page)} {dir : Word}
      (run : PagingRun A totalMemory s dirs events)
      (call : pagingCreateDirectory A.alloc s = .ok (dir, s')) :
      PagingRun A totalMemory s' (dir :: dirs) events
  | map {s s' : Machine} {dirs : List Word} {events : List (Event Page)}
      {dir virt flags answer : Word} (run : PagingRun A totalMemory s dirs events)
      (member : dir ∈ dirs) (call : pagingMapPage A.alloc dir virt flags s = .ok (answer, s')) :
      PagingRun A totalMemory s' dirs (events ++ [.acquire (dir, pageOf virt)])
  | unmap {s : Machine} {dirs : List Word} {events : List (Event Page)} {dir virt : Word}
      (run : PagingRun A totalMemory s dirs events) (member : dir ∈ dirs) :
      PagingRun A totalMemory (pagingUnmapPage dir virt s) dirs
        (events ++ [.release (dir, pageOf virt)])
  | alloc {s : Machine} {dirs : List Word} {events : List (Event Page)} {n p : Word} {mem' : Mem}
      (run : PagingRun A totalMemory s dirs events) (call : A.alloc n s.mem = some (p, mem')) :
      PagingRun A totalMemory { s with mem := mem' } dirs events

/-- What holds in every state of a run: the pool replays its events from the state that
`paging_init` leaves behind. -/
structure RunInv (A : Allocator) (totalMemory : Word) (s : Machine) (dirs : List Word)
    (events : List (Event Page)) : Prop where
  kernel : s.kernelDirectory ∈ dirs
  total : s.totalFrames = totalMemory / pageSize
  surplus : surplus s = totalMemory / pageSize
  pool : ∃ m, (mappedPool totalMemory s.kernelDirectory 1024).replay events = some m ∧
    PagingInv A s dirs m

/-- A step on pages that makes the pool follow its events. -/
theorem RunInv.step {A : Allocator} {totalMemory : Word} {s s' : Machine} {dirs dirs' : List Word}
    {events events' : List (Event Page)} (inv : RunInv A totalMemory s dirs events)
    (kept : Kept s s') (more : ∀ dir ∈ dirs, dir ∈ dirs') {m' : Assignment Page}
    (replayed : (mappedPool totalMemory s.kernelDirectory 1024).replay events' = some m')
    (inv' : PagingInv A s' dirs' m') : RunInv A totalMemory s' dirs' events' := by
  refine ⟨?_, kept.totalFrames.trans inv.total, kept.surplus.trans inv.surplus, m', ?_, inv'⟩
  · rw [kept.kernelDirectory]
    exact more _ inv.kernel
  · rw [kept.kernelDirectory]
    exact replayed

/-- **The invariant holds in every state of every run.** -/
theorem PagingRun.inv {A : Allocator} (never : A.NeverNull) {totalMemory : Word} {s : Machine}
    {dirs : List Word} {events : List (Event Page)}
    (run : PagingRun A totalMemory s dirs events) : RunInv A totalMemory s dirs events := by
  induction run with
  | init boot call =>
      obtain ⟨inv, total, surplus, -⟩ :=
        pagingInit_spec boot (bootNonNull_of_neverNull never totalMemory _) call
      exact ⟨List.mem_cons_self, total, surplus, _, rfl, inv⟩
  | create _ call ih =>
      obtain ⟨m, replayed, inv⟩ := ih.pool
      obtain ⟨mem', answer, -⟩ := pagingCreateDirectory_eq_ok.mp call
      obtain ⟨-, inv', kept⟩ := inv.pagingCreateDirectory_spec call (never _ _ _ _ answer)
      exact ih.step kept (fun _ member => List.mem_cons_of_mem _ member) replayed inv'
  | @map s s' dirs events dir virt flags answer run member call ih =>
      obtain ⟨m, replayed, inv⟩ := ih.pool
      have step := inv.pagingMapPage_spec member (tableNonNull_of_neverNull never dir virt s) flags
      rw [call] at step
      obtain ⟨-, -, m', acquired, inv', kept⟩ := step
      exact ih.step kept (fun _ there => there)
        ((Assignment.replay_append replayed _).trans acquired) inv'
  | unmap _ member ih =>
      obtain ⟨m, replayed, inv⟩ := ih.pool
      obtain ⟨inv', kept, -⟩ := inv.pagingUnmapPage_spec member _
      exact ih.step kept (fun _ there => there) (Assignment.replay_append replayed _) inv'
  | alloc _ call ih =>
      obtain ⟨m, replayed, inv⟩ := ih.pool
      obtain ⟨inv', kept, -⟩ := inv.alloc call
      exact ih.step kept (fun _ there => there) replayed inv'

/-! ## The page tables are a map -/

/-- What the kernel's functions show of a pool: the marks of the bitmap, which pages are
present, and the physical address of a virtual one. -/
structure Shows (s : Machine) (dirs : List Word) (m : Assignment Page) : Prop where
  total : m.total = s.totalFrames.toNat
  marked : ∀ i < s.totalFrames.toNat, m.taken i = frameMarked s (BitVec.ofNat 32 i)
  present : ∀ dir ∈ dirs, ∀ virt,
    pagingIsPagePresent dir virt s = (m.unitOf (dir, pageOf virt)).isSome
  physical : ∀ dir ∈ dirs, ∀ virt frame, m.unitOf (dir, pageOf virt) = some frame →
    pagingVirtualToPhysical dir virt s =
      (BitVec.ofNat 32 frame <<< 12) ||| (virt &&& (0xFFF : Word))
  zero_iff : ∀ dir ∈ dirs, ∀ virt,
    pagingVirtualToPhysical dir virt s = 0 ↔ m.unitOf (dir, pageOf virt) = none

/-- A frame other than frame zero has no address that is zero. -/
theorem physical_ne_zero {i : ℕ} (positive : 0 < i) (small : i < 2 ^ 20) (low : Word) :
    (BitVec.ofNat 32 i <<< 12) ||| low ≠ 0 := by
  intro zero
  have shifted : BitVec.ofNat 32 i <<< 12 = 0 := by
    refine BitVec.eq_of_getLsbD_eq fun k _ => ?_
    have bit := congrArg (BitVec.getLsbD · k) zero
    simp only [BitVec.getLsbD_or, BitVec.ofNat_eq_ofNat, BitVec.getLsbD_zero,
      Bool.or_eq_false_iff] at bit
    rw [bit.1]
    simp
  have value := congrArg BitVec.toNat shifted
  rw [BitVec.toNat_shiftLeft, Nat.shiftLeft_eq, BitVec.toNat_ofNat] at value
  have none_left : i * 2 ^ 12 % 2 ^ 32 = 0 := by
    rw [Nat.mod_eq_of_lt (show i < 2 ^ 32 by omega)] at value
    exact value
  omega

theorem PagingInv.shows {A : Allocator} {s : Machine} {dirs : List Word} {m : Assignment Page}
    (inv : PagingInv A s dirs m) : Shows s dirs m := by
  have small := inv.separated.small
  refine ⟨inv.refines.total, inv.refines.taken, ?_, ?_, ?_⟩
  · intro dir member virt
    rw [pagingIsPagePresent_eq, inv.refines.mapped dir member virt, Option.isSome_map]
  · intro dir member virt frame held
    rw [pagingVirtualToPhysical_eq, inv.lookup_of_held member held]
  · intro dir member virt
    rw [pagingVirtualToPhysical_eq, inv.refines.mapped dir member virt]
    cases held : m.unitOf (dir, pageOf virt) with
    | none => exact iff_of_true rfl rfl
    | some i =>
        obtain ⟨above, below, -⟩ := inv.owned.held _ i held
        rw [inv.refines.total] at below
        exact iff_of_false (physical_ne_zero (by omega) (by omega) _) (Option.some_ne_none i)

/-- **The page tables refine a map.** In every state of every run the functions of the kernel
show the pool that replays the run, and each further call is one step of it: mapping a page
acquires the lowest free frame if the page is absent, unmapping releases, neither touches any
other page, and a new directory has no page. A call that maps panics only when the pool has no
answer. -/
theorem page_tables_refine_map (A : Allocator) (never : A.NeverNull) {totalMemory : Word}
    {s : Machine} {dirs : List Word} {events : List (Event Page)}
    (run : PagingRun A totalMemory s dirs events) :
    s.kernelDirectory ∈ dirs ∧
    ∃ m, (mappedPool totalMemory s.kernelDirectory 1024).replay events = some m ∧
      Shows s dirs m ∧
      (∀ dir ∈ dirs, ∀ virt flags,
        match pagingMapPage A.alloc dir virt flags s with
        | .ok (answer, s') =>
            answer = virt ∧ ∃ m', m.acquire (dir, pageOf virt) = some m' ∧ Shows s' dirs m' ∧
              ∀ key, key ≠ (dir, pageOf virt) → m'.unitOf key = m.unitOf key
        | .error .panic => m.acquire (dir, pageOf virt) = none
        | .error .endless => A.alloc PageTable.sizeof s.mem = none) ∧
      (∀ dir ∈ dirs, ∀ virt,
        Shows (pagingUnmapPage dir virt s) dirs (m.release (dir, pageOf virt)) ∧
        ∀ key, key ≠ (dir, pageOf virt) →
          (m.release (dir, pageOf virt)).unitOf key = m.unitOf key) ∧
      ∀ dir s', pagingCreateDirectory A.alloc s = .ok (dir, s') →
        dir ∉ dirs ∧ (∀ page, m.unitOf (dir, page) = none) ∧ Shows s' (dir :: dirs) m := by
  obtain ⟨kernel, -, -, m, replayed, inv⟩ := run.inv never
  refine ⟨kernel, m, replayed, inv.shows, ?_, ?_, ?_⟩
  · intro dir member virt flags
    have step := inv.pagingMapPage_spec member (tableNonNull_of_neverNull never dir virt s) flags
    cases mapped : pagingMapPage A.alloc dir virt flags s with
    | error stop =>
        rw [mapped] at step
        cases stop with
        | panic => exact step
        | endless => exact step.2
    | ok result =>
        rw [mapped] at step
        obtain ⟨same, -, m', acquired, inv', -⟩ := step
        exact ⟨same, m', acquired, inv'.shows,
          fun key ne => Assignment.unitOf_acquire_of_ne acquired ne⟩
  · intro dir member virt
    exact ⟨(inv.pagingUnmapPage_spec member virt).1.shows,
      fun key ne => Assignment.unitOf_release_of_ne ne⟩
  · intro dir s' call
    obtain ⟨mem', answer, -⟩ := pagingCreateDirectory_eq_ok.mp call
    obtain ⟨stranger, inv', -⟩ := inv.pagingCreateDirectory_spec call (never _ _ _ _ answer)
    exact ⟨stranger, inv.refines.unknown dir stranger, inv'.shows⟩

/-- On the heap of the kernel there is a run: `paging_init` for 16 MiB, then one page is
unmapped. -/
theorem exists_pagingRun : ∃ s dirs dir, dir ∈ dirs ∧
    PagingRun kernelHeap.strict 0x1000000 s dirs [.release (dir, pageOf 0x3000)] := by
  obtain ⟨s, boot⟩ := exists_kernelBoot
  have enough : 1280 ≤ ((0x1000000 : Word) / pageSize).toNat := by decide
  obtain ⟨s', call⟩ := pagingInit_kernel answersLikeHeap_strict boot enough
  have run := PagingRun.init (boot.booting answersLikeHeap_strict) call
  exact ⟨_, _, s'.kernelDirectory, List.mem_cons_self, run.unmap List.mem_cons_self⟩

theorem page_tables_refine_map_kernel :
    ∃ (s : Machine) (dirs : List Word) (dir : Word) (m : Assignment Page), dir ∈ dirs ∧
      (mappedPool 0x1000000 s.kernelDirectory 1024).replay
        [.release (dir, pageOf 0x3000)] = some m ∧
      Shows s dirs m := by
  obtain ⟨s, dirs, dir, member, run⟩ := exists_pagingRun
  obtain ⟨-, m, replayed, shows, -⟩ :=
    page_tables_refine_map kernelHeap.strict (Allocator.neverNull_strict _) run
  exact ⟨s, dirs, dir, m, member, replayed, shows⟩

/-! ## Who owns a frame -/

/-- The first address of a page. -/
def pageAddress (page : BitVec 20) : Word := page ++ (0 : BitVec 12)

/-- The entry of a page of a directory. -/
def pageEntry (s : Machine) (key : Page) : Word :=
  PageTable.entry s.mem (PageDirectory.table s.mem key.1 (pdIndex (pageAddress key.2)))
    (ptIndex (pageAddress key.2))

/-- The entries that are present: the directory has a table for them, and their own bit is
set. -/
def presentEntries (s : Machine) (dirs : List Word) : Set Page :=
  {key | key.1 ∈ dirs ∧ PageDirectory.present s.mem key.1 (pdIndex (pageAddress key.2)) = true ∧
    PageTableEntry.present (pageEntry s key) = true}

/-- The number of the frame that an entry names. -/
def entryFrame (s : Machine) (key : Page) : ℕ := (PageTableEntry.frame (pageEntry s key)).toNat

theorem pageOf_pageAddress (page : BitVec 20) : pageOf (pageAddress page) = page := by
  refine BitVec.eq_of_toNat_eq ?_
  rw [toNat_pageOf, pageAddress, BitVec.toNat_append, Nat.shiftLeft_eq]
  have low : (0 : BitVec 12).toNat = 0 := rfl
  rw [low, Nat.or_zero, Nat.mul_div_cancel _ (by decide)]

/-- A page holds a frame exactly if its entry is present, and then the entry names it. -/
theorem PagingInv.unitOf_iff {A : Allocator} {s : Machine} {dirs : List Word}
    {m : Assignment Page} (inv : PagingInv A s dirs m) (key : Page) (i : ℕ) :
    m.unitOf key = some i ↔ key ∈ presentEntries s dirs ∧ entryFrame s key = i := by
  obtain ⟨dir, page⟩ := key
  have small := inv.separated.small
  constructor
  · intro held
    have member : dir ∈ dirs := by
      by_contra stranger
      rw [inv.refines.unknown dir stranger page] at held
      contradiction
    obtain ⟨-, below, -⟩ := inv.owned.held _ i held
    rw [inv.refines.total] at below
    have found : lookup s.mem dir (pageAddress page) = some (BitVec.ofNat 32 i) := by
      refine inv.lookup_of_held member ?_
      rw [pageOf_pageAddress]
      exact held
    obtain ⟨here, entry, frame⟩ := lookup_eq_some found
    refine ⟨⟨member, here, entry⟩, ?_⟩
    rw [entryFrame, pageEntry, frame, BitVec.toNat_ofNat]
    omega
  · rintro ⟨⟨member, here, entry⟩, frame⟩
    have found : lookup s.mem dir (pageAddress page) =
        some (PageTableEntry.frame (pageEntry s (dir, page))) := by
      rw [lookup_of_present here, backing]
      exact if_pos entry
    rw [inv.refines.mapped dir member, pageOf_pageAddress, Option.map_eq_some_iff] at found
    obtain ⟨j, held, same⟩ := found
    obtain ⟨-, below, -⟩ := inv.owned.held _ j held
    rw [inv.refines.total] at below
    rw [entryFrame, ← same, BitVec.toNat_ofNat] at frame
    rw [held, ← frame, Nat.mod_eq_of_lt (by omega)]

/-- **Frame ownership.** In every state of every run, sending each present entry to its frame is
a bijection onto the marked frames from 256 on: no frame backs two pages, no mapped frame is
marked free, and no marked frame is lost. -/
theorem frame_ownership (A : Allocator) (never : A.NeverNull) {totalMemory : Word} {s : Machine}
    {dirs : List Word} {events : List (Event Page)}
    (run : PagingRun A totalMemory s dirs events) :
    s.totalFrames = totalMemory / pageSize ∧
    Set.BijOn (entryFrame s) (presentEntries s dirs)
      {i | 256 ≤ i ∧ i < s.totalFrames.toNat ∧ frameMarked s (BitVec.ofNat 32 i) = true} := by
  obtain ⟨-, total, -, m, -, inv⟩ := run.inv never
  refine ⟨total, ?_⟩
  have bijection := inv.owned.bijOn
  have domain : {key | (m.unitOf key).isSome} = presentEntries s dirs := by
    ext key
    rw [Set.mem_ofPred_eq, Option.isSome_iff_exists]
    constructor
    · rintro ⟨i, held⟩
      exact ((inv.unitOf_iff key i).mp held).1
    · intro present
      exact ⟨_, (inv.unitOf_iff key _).mpr ⟨present, rfl⟩⟩
  have range : {i | 256 ≤ i ∧ i < m.total ∧ m.taken i = true} =
      {i | 256 ≤ i ∧ i < s.totalFrames.toNat ∧ frameMarked s (BitVec.ofNat 32 i) = true} := by
    ext i
    rw [Set.mem_ofPred_eq, Set.mem_ofPred_eq, inv.refines.total]
    refine and_congr_right fun _ => and_congr_right fun lt => ?_
    rw [inv.refines.taken i lt, marks]
  rw [domain, range] at bijection
  refine bijection.congr fun key present => ?_
  dsimp only
  rw [(inv.unitOf_iff key _).mpr ⟨present, rfl⟩]
  rfl

theorem frame_ownership_kernel :
    ∃ (s : Machine) (dirs : List Word) (dir : Word), dir ∈ dirs ∧
      Set.BijOn (entryFrame s) (presentEntries s dirs)
        {i | 256 ≤ i ∧ i < s.totalFrames.toNat ∧
          frameMarked s (BitVec.ofNat 32 i) = true} := by
  obtain ⟨s, dirs, dir, member, run⟩ := exists_pagingRun
  exact ⟨s, dirs, dir, member,
    (frame_ownership kernelHeap.strict (Allocator.neverNull_strict _) run).2⟩

end CocosOS.Kernel.Memory
