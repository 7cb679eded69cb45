import CocosOS.Kernel.Memory.AddressSpace
import CocosOS.Library.CachedMap

/-!
# Cached translations

The CPU caches translations of the directory that `CR3` addresses: pairs of a page and its frame.
It may add a pair whenever the page is present and drop pairs at any time. `load_page_directory`
drops all of them, `flush_tlb` and `flush_tlb_page` drop some. `TlbStep` puts these steps of the
hardware beside the calls of `paging.c`.

`paging_map_page` changes only absent pages, of which nothing is cached. `paging_unmap_page`
drops nothing from the cache, so unmapping a page of the loaded directory leaves a stale pair
exactly if the page is cached (`TlbInv.coherent_unmap_iff`), and the frame of the pair is free
(`TlbInv.unmap_cached`). In a run in which this does not happen, and no directory or table is
placed at `NULL`, the cache agrees with the loaded directory in every state
(`no_stale_translation`); without this it need not (`unmapped_page_stays_cached`).
-/

set_option autoImplicit false

namespace CocosOS.Kernel.Memory

open Library.ByteMemory Library.SharedPool Library.CachedMap

/-! ## The cache -/

/-- The machine, the directories there are, and the pairs of a page and a frame that the CPU has
cached. -/
structure TlbState where
  machine : Machine
  dirs : List Word
  tlb : Set (BitVec 20 × Word)

namespace TlbState

/-- The entry of the loaded directory for a page: its frame, if it is present. -/
def translation (st : TlbState) (page : BitVec 20) : Option Word :=
  lookup st.machine.mem st.machine.cr3 (pageAddress page)

end TlbState

/-- What may happen next: a call of the kernel, an access of the CPU to a virtual address, or a
part of the cache being dropped. -/
inductive TlbEvent where
  | alloc (n : Word)
  | create
  | map (dir virt flags : Word)
  | unmap (dir virt : Word)
  | switch (dir : Word)
  | access (virt : Word)
  | flush (kept : Set (BitVec 20 × Word))

/-- One step. The calls leave the cache alone, except that `paging_switch_directory` empties it
through `load_page_directory`. An access caches a translation that the loaded directory has. -/
inductive TlbStep (alloc : MemoryAlloc) : TlbState → TlbEvent → TlbState → Prop
  | alloc {st : TlbState} {n p : Word} {mem' : Mem}
      (call : alloc n st.machine.mem = some (p, mem')) :
      TlbStep alloc st (.alloc n) { st with machine := { st.machine with mem := mem' } }
  | create {st : TlbState} {dir : Word} {s' : Machine}
      (call : pagingCreateDirectory alloc st.machine = .ok (dir, s')) :
      TlbStep alloc st .create { st with machine := s', dirs := dir :: st.dirs }
  | map {st : TlbState} {dir virt flags answer : Word} {s' : Machine} (member : dir ∈ st.dirs)
      (call : pagingMapPage alloc dir virt flags st.machine = .ok (answer, s')) :
      TlbStep alloc st (.map dir virt flags) { st with machine := s' }
  | unmap {st : TlbState} {dir : Word} (virt : Word) (member : dir ∈ st.dirs) :
      TlbStep alloc st (.unmap dir virt)
        { st with machine := pagingUnmapPage dir virt st.machine }
  | switch {st : TlbState} {dir : Word} (member : dir ∈ st.dirs) :
      TlbStep alloc st (.switch dir)
        { st with machine := pagingSwitchDirectory dir st.machine, tlb := ∅ }
  | access {st : TlbState} {virt frame : Word}
      (present : st.translation (pageOf virt) = some frame) :
      TlbStep alloc st (.access virt) { st with tlb := insert (pageOf virt, frame) st.tlb }
  | flush {st : TlbState} {kept : Set (BitVec 20 × Word)} (fewer : kept ⊆ st.tlb) :
      TlbStep alloc st (.flush kept) { st with tlb := kept }

/-- The states of a run on the heap of the kernel, after `paging_init` loaded its directory and
turned paging on. `Allowed` says which steps the run may take. -/
inductive TlbRun (totalMemory : Word) (Allowed : TlbState → TlbEvent → Prop) : TlbState → Prop
  | init {s s' : Machine} (boot : KernelBoot s)
      (call : pagingInit kernelHeap.alloc totalMemory s = .ok s') :
      TlbRun totalMemory Allowed ⟨s', [s'.kernelDirectory], ∅⟩
  | step {st st' : TlbState} {event : TlbEvent} (run : TlbRun totalMemory Allowed st)
      (allowed : Allowed st event) (step : TlbStep kernelHeap.alloc st event st') :
      TlbRun totalMemory Allowed st'

/-- **No stale translation.** Each cached pair is what the loaded directory has now. So its frame
is marked, and backs no other page of any directory. -/
structure NoStaleTranslation (st : TlbState) : Prop where
  agrees : Coherent st.tlb st.translation
  marked : ∀ page frame, (page, frame) ∈ st.tlb → frameMarked st.machine frame = true
  backs : ∀ page frame, (page, frame) ∈ st.tlb → ∀ dir ∈ st.dirs, ∀ other,
    lookup st.machine.mem dir (pageAddress other) = some frame →
      dir = st.machine.cr3 ∧ other = page

/-! ## The registers -/

section Registers

variable {alloc : MemoryAlloc} {dir virt flags : Word} {s s' : Machine}

theorem ensureTable_cr3 (call : ensureTable alloc dir virt flags s = .ok s') :
    s'.cr3 = s.cr3 := by
  rcases ensureTable_eq_ok.mp call with ⟨-, rfl⟩ | ⟨-, table, mem', -, rfl⟩
  · rfl
  · rfl

theorem ensureFrame_cr3 (call : ensureFrame dir virt flags s = .ok s') : s'.cr3 = s.cr3 := by
  rw [ensureFrame] at call
  dsimp only at call
  split at call
  · obtain rfl := Except.ok.inj call
    rfl
  · obtain ⟨⟨frame, s₁⟩, taken, last⟩ := bind_eq_ok.mp call
    obtain rfl := Except.ok.inj last
    obtain rfl := (pagingAllocateFrame_ok taken).2
    rfl

theorem pagingMapPage_cr3 {answer : Word}
    (call : pagingMapPage alloc dir virt flags s = .ok (answer, s')) : s'.cr3 = s.cr3 := by
  obtain ⟨s₁, tables, rest⟩ := bind_eq_ok.mp call
  obtain ⟨s₂, frames, last⟩ := bind_eq_ok.mp rest
  obtain ⟨-, rfl⟩ := Prod.mk.inj (Except.ok.inj last)
  exact (ensureFrame_cr3 frames).trans (ensureTable_cr3 tables)

theorem pagingUnmapPage_cr3 (dir virt : Word) (s : Machine) :
    (pagingUnmapPage dir virt s).cr3 = s.cr3 := by
  rw [pagingUnmapPage]
  split
  · dsimp only
    split <;> rfl
  · rfl

end Registers

/-! ## The addresses of the directories -/

/-- Each directory has its own address as its `physical_address`. -/
def SelfAddressed (mem : Mem) (dirs : List Word) : Prop :=
  ∀ dir ∈ dirs, PageDirectory.physicalAddress mem dir = dir

theorem SameDirectories.selfAddressed {dirs : List Word} {mem mem' : Mem}
    (same : SameDirectories dirs mem mem') (addressed : SelfAddressed mem dirs) :
    SelfAddressed mem' dirs :=
  fun dir member => (same dir member).1.trans (addressed dir member)

theorem TableAdded.selfAddressed {A : Allocator} {s : Machine} {dirs : List Word}
    {dir index value table : Word} {mem' : Mem}
    (added : TableAdded s dirs dir index value table mem') (sep : Separated A s dirs)
    (addressed : SelfAddressed s.mem dirs) : SelfAddressed mem' dirs := by
  intro dir' member
  by_cases same : dir' = dir
  · subst same
    exact added.physical.trans (addressed dir' member)
  · exact (added.fields_of_ne sep member same).1.trans (addressed dir' member)

section SelfAddressed

variable {A : Allocator} {s s' : Machine} {dirs : List Word} {m : Assignment Page}
  {dir virt flags : Word} (inv : PagingInv A s dirs m) (addressed : SelfAddressed s.mem dirs)
include inv addressed

theorem PagingInv.selfAddressed_ensureTable (member : dir ∈ dirs)
    (nonnull : TableNonNull A dir virt s) (call : ensureTable A.alloc dir virt flags s = .ok s') :
    SelfAddressed s'.mem dirs := by
  rcases ensureTable_eq_ok.mp call with ⟨-, rfl⟩ | ⟨absent, table, mem₁, answer, rfl⟩
  · exact addressed
  · obtain ⟨-, added⟩ := inv.separated.addTable member (pdIndex_lt virt) answer
      (nonnull absent _ _ answer) rfl
    exact added.selfAddressed inv.separated addressed

theorem PagingInv.selfAddressed_pagingMapPage {answer : Word} (member : dir ∈ dirs)
    (nonnull : TableNonNull A dir virt s)
    (call : pagingMapPage A.alloc dir virt flags s = .ok (answer, s')) :
    SelfAddressed s'.mem dirs := by
  obtain ⟨s₁, tables, rest⟩ := bind_eq_ok.mp call
  obtain ⟨s₂, frames, last⟩ := bind_eq_ok.mp rest
  obtain ⟨-, rfl⟩ := Prod.mk.inj (Except.ok.inj last)
  have first := inv.ensureTable_spec member nonnull flags
  rw [tables] at first
  obtain ⟨inv₁, -, here⟩ := first
  have second := inv₁.ensureFrame_spec member here flags
  rw [frames] at second
  obtain ⟨-, -, -, -, same⟩ := second
  exact same.selfAddressed (inv.selfAddressed_ensureTable addressed member nonnull tables)

theorem PagingInv.selfAddressed_pagingCreateDirectory
    (call : pagingCreateDirectory A.alloc s = .ok (dir, s')) (nonnull : dir ≠ 0) :
    SelfAddressed s'.mem (dir :: dirs) := by
  obtain ⟨mem₁, answer, rfl⟩ := pagingCreateDirectory_eq_ok.mp call
  obtain ⟨-, -, kept, physical, -⟩ := inv.separated.addDirectory answer nonnull rfl
  intro dir' member
  rcases List.mem_cons.mp member with rfl | old
  · exact physical
  · exact (inv.separated.sameDirectories_of_kept kept).selfAddressed addressed dir' old

end SelfAddressed

theorem mapPagesLoop_selfAddressed {A : Allocator} {totalMemory : Word} (rounds : ℕ) :
    ∀ {k : ℕ} {s s' : Machine}, k + rounds ≤ 1024 →
    PagingInv A s [s.kernelDirectory] (mappedPool totalMemory s.kernelDirectory k) →
    TableNonNull A s.kernelDirectory 0 s → SelfAddressed s.mem [s.kernelDirectory] →
    mapPagesLoop A.alloc rounds (BitVec.ofNat 32 (4096 * k)) s = .ok s' →
    SelfAddressed s'.mem [s'.kernelDirectory] := by
  induction rounds with
  | zero =>
      intro k s s' _ _ _ addressed call
      obtain rfl := Except.ok.inj call
      exact addressed
  | succ rounds ih =>
      intro k s s' range inv nonnull addressed call
      rw [mapPagesLoop] at call
      obtain ⟨⟨virt, s₁⟩, mapped, rest⟩ := bind_eq_ok.mp call
      have step :=
        pagingMapPage_mappedPool (k := k) (by omega) inv nonnull (pagePresent ||| pageWrite)
      rw [mapped] at step
      obtain ⟨inv₁, present, kept, -⟩ := step
      have addressed₁ := inv.selfAddressed_pagingMapPage addressed List.mem_cons_self
        (nonnull.of_firstTable (by omega)) mapped
      rw [← kept.kernelDirectory] at addressed₁
      have nonnull₁ : TableNonNull A s₁.kernelDirectory 0 s₁ := tableNonNull_of_present present
      refine ih (k := k + 1) (by omega) inv₁ nonnull₁ addressed₁ ?_
      rw [← ofNat_add_pageSize]
      exact rest

/-- `paging_init` loads the directory it has made. -/
theorem pagingInit_selfAddressed {A : Allocator} {totalMemory : Word} {s s' : Machine}
    (boot : Booting A s) (nonnull : BootNonNull A totalMemory s)
    (call : pagingInit A.alloc totalMemory s = .ok s') :
    SelfAddressed s'.mem [s'.kernelDirectory] ∧ s'.cr3 = s'.kernelDirectory := by
  rw [pagingInit_eq] at call
  obtain ⟨s₂, looped, last⟩ := bind_eq_ok.mp call
  obtain ⟨s₁, started, mapped⟩ := bind_eq_ok.mp looped
  obtain ⟨inv₁, table, -, -⟩ := initDirectory_spec boot nonnull started
  have addressed₁ : SelfAddressed s₁.mem [s₁.kernelDirectory] := by
    rw [initDirectory] at started
    obtain ⟨t₁, frames, rest⟩ := bind_eq_ok.mp started
    obtain ⟨⟨dir, t₂⟩, created, made⟩ := bind_eq_ok.mp rest
    obtain rfl := Except.ok.inj made
    obtain ⟨inv₀, -⟩ := boot.inv.initFrames_spec boot.totalFrames nonnull.bitmap frames
    have alone : SelfAddressed t₁.mem [] := fun _ none => absurd none List.not_mem_nil
    have addressed : SelfAddressed t₂.mem [dir] :=
      inv₀.selfAddressed_pagingCreateDirectory alone created
        (nonnull.directory t₁ frames dir t₂ created)
    exact addressed
  have addressed₂ := mapPagesLoop_selfAddressed 1024 (k := 0) (by decide) inv₁ table addressed₁
    mapped
  obtain rfl := Except.ok.inj last
  exact ⟨addressed₂, addressed₂ _ List.mem_cons_self⟩

/-! ## The invariant -/

theorem PagingInv.lookup_pageAddress {A : Allocator} {s : Machine} {dirs : List Word}
    {m : Assignment Page} (inv : PagingInv A s dirs m) {dir : Word} (member : dir ∈ dirs)
    (page : BitVec 20) :
    lookup s.mem dir (pageAddress page) = (m.unitOf (dir, page)).map (BitVec.ofNat 32) := by
  rw [inv.refines.mapped dir member, pageOf_pageAddress]

/-- The frame that a page holds is one of those there are, and its number fits a word. -/
theorem PagingInv.frame_of_held {A : Allocator} {s : Machine} {dirs : List Word}
    {m : Assignment Page} (inv : PagingInv A s dirs m) {key : Page} {i : ℕ}
    (held : m.unitOf key = some i) :
    i < s.totalFrames.toNat ∧ (BitVec.ofNat 32 i).toNat = i := by
  have small := inv.separated.small
  obtain ⟨-, below, -⟩ := inv.owned.held key i held
  rw [inv.refines.total] at below
  rw [BitVec.toNat_ofNat]
  exact ⟨below, Nat.mod_eq_of_lt (by omega)⟩

/-- The page tables are sound, `CR3` addresses one of the directories, and the cache agrees with
that directory. -/
structure TlbInv (A : Allocator) (st : TlbState) : Prop where
  paging : ∃ m, PagingInv A st.machine st.dirs m
  addressed : SelfAddressed st.machine.mem st.dirs
  loaded : st.machine.cr3 ∈ st.dirs
  coherent : Coherent st.tlb st.translation

namespace TlbInv

variable {A : Allocator} {st : TlbState} (inv : TlbInv A st)
include inv

/-- A cached page holds the frame it is cached with. -/
theorem held_of_cached {m : Assignment Page} (paging : PagingInv A st.machine st.dirs m)
    {page : BitVec 20} {frame : Word} (cached : (page, frame) ∈ st.tlb) :
    ∃ i, m.unitOf (st.machine.cr3, page) = some i ∧ frame = BitVec.ofNat 32 i := by
  have found := inv.coherent page frame cached
  rw [TlbState.translation, paging.lookup_pageAddress inv.loaded, Option.map_eq_some_iff] at found
  obtain ⟨i, held, same⟩ := found
  exact ⟨i, held, same.symm⟩

/-- **No stale translation.** A coherent cache reaches only frames that are marked, each through
the one page that it backs. -/
theorem noStaleTranslation : NoStaleTranslation st := by
  obtain ⟨m, paging⟩ := inv.paging
  refine ⟨inv.coherent, fun page frame cached => ?_, ?_⟩
  · obtain ⟨i, held, rfl⟩ := inv.held_of_cached paging cached
    have marked := paging.refines.taken i (paging.frame_of_held held).1
    rw [(paging.owned.held _ i held).2.2] at marked
    exact marked.symm
  · intro page frame cached dir member other back
    obtain ⟨i, held, rfl⟩ := inv.held_of_cached paging cached
    rw [paging.lookup_pageAddress member, Option.map_eq_some_iff] at back
    obtain ⟨j, held', same⟩ := back
    have numbers := congrArg BitVec.toNat same
    rw [(paging.frame_of_held held).2, (paging.frame_of_held held').2] at numbers
    subst numbers
    exact Prod.mk.inj (paging.owned.once _ _ j held' held)

/-- A call after which every page that is present keeps its frame. -/
theorem grow {s' : Machine} {dirs' : List Word} {m m' : Assignment Page}
    (paging : PagingInv A st.machine st.dirs m) (paging' : PagingInv A s' dirs' m')
    (more : ∀ key i, m.unitOf key = some i → m'.unitOf key = some i)
    (subset : ∀ dir ∈ st.dirs, dir ∈ dirs') (cr3 : s'.cr3 = st.machine.cr3)
    (addressed : SelfAddressed s'.mem dirs') :
    TlbInv A { st with machine := s', dirs := dirs' } := by
  have loaded : s'.cr3 ∈ dirs' := by
    rw [cr3]
    exact subset _ inv.loaded
  refine ⟨⟨m', paging'⟩, addressed, loaded, inv.coherent.extend fun page frame found => ?_⟩
  rw [TlbState.translation, paging.lookup_pageAddress inv.loaded, Option.map_eq_some_iff] at found
  obtain ⟨i, held, rfl⟩ := found
  rw [TlbState.translation, paging'.lookup_pageAddress loaded, cr3, more _ i held]
  rfl

/-- **Unmapping leaves the cache coherent exactly if it has no pair of the page**, or the page
is not one of the loaded directory. -/
theorem coherent_unmap_iff {dir : Word} (virt : Word) (member : dir ∈ st.dirs) :
    Coherent st.tlb
        ({ st with machine := pagingUnmapPage dir virt st.machine } : TlbState).translation ↔
      (dir = st.machine.cr3 → ∀ frame, (pageOf virt, frame) ∉ st.tlb) := by
  obtain ⟨m, paging⟩ := inv.paging
  have loaded := inv.loaded
  have paging' := (paging.pagingUnmapPage_spec member virt).1
  have after : ∀ page,
      ({ st with machine := pagingUnmapPage dir virt st.machine } : TlbState).translation page =
        ((m.release (dir, pageOf virt)).unitOf (st.machine.cr3, page)).map (BitVec.ofNat 32) := by
    intro page
    rw [TlbState.translation, pagingUnmapPage_cr3]
    exact paging'.lookup_pageAddress loaded page
  have before : ∀ page,
      st.translation page = (m.unitOf (st.machine.cr3, page)).map (BitVec.ofNat 32) :=
    paging.lookup_pageAddress loaded
  by_cases same : dir = st.machine.cr3
  · rw [forall_prop_of_true same]
    refine inv.coherent.remove_iff ?_ fun other ne => ?_
    · rw [after, same, Assignment.unitOf_release_self]
      rfl
    · rw [after, before, Assignment.unitOf_release_of_ne fun eq => ne (Prod.mk.inj eq).2]
  · refine iff_of_true ?_ fun eq => absurd eq same
    refine inv.coherent.extend fun page frame found => ?_
    rw [after, Assignment.unitOf_release_of_ne fun eq => same (Prod.mk.inj eq).1.symm, ← before]
    exact found

/-- **A cached page of the loaded directory that is unmapped leaves a stale pair**, whose frame
is free. -/
theorem unmap_cached {virt frame : Word} (cached : (pageOf virt, frame) ∈ st.tlb) :
    ({ st with machine := pagingUnmapPage st.machine.cr3 virt st.machine } :
        TlbState).translation (pageOf virt) = none ∧
      frameMarked (pagingUnmapPage st.machine.cr3 virt st.machine) frame = false := by
  obtain ⟨m, paging⟩ := inv.paging
  have loaded := inv.loaded
  obtain ⟨i, held, rfl⟩ := inv.held_of_cached paging cached
  have paging' := (paging.pagingUnmapPage_spec loaded virt).1
  have below := (paging.frame_of_held held).1
  constructor
  · rw [TlbState.translation, pagingUnmapPage_cr3, paging'.lookup_pageAddress loaded,
      Assignment.unitOf_release_self]
    rfl
  · rw [Assignment.release_of_held held] at paging'
    have kept := paging'.refines.total.symm.trans paging.refines.total
    have clear := paging'.refines.taken i (by rw [kept]; exact below)
    rw [Assignment.taken_revoke_self] at clear
    exact clear.symm

end TlbInv

/-- The condition on a step: an unmapped page of the loaded directory is not cached, and the
directory or table that a call makes is not placed at `NULL`. -/
def TlbEvent.Harmless (A : Allocator) (st : TlbState) : TlbEvent → Prop
  | .create =>
      ∀ p mem', A.alloc PageDirectory.sizeof st.machine.mem = some (p, mem') → p ≠ 0
  | .map dir virt _ => TableNonNull A dir virt st.machine
  | .unmap dir virt => dir = st.machine.cr3 → ∀ frame, (pageOf virt, frame) ∉ st.tlb
  | .alloc _ | .switch _ | .access _ | .flush _ => True

/-- **A harmless step keeps the invariant.** -/
theorem TlbInv.step {A : Allocator} {st st' : TlbState} {event : TlbEvent} (inv : TlbInv A st)
    (harmless : event.Harmless A st) (step : TlbStep A.alloc st event st') : TlbInv A st' := by
  obtain ⟨m, paging⟩ := inv.paging
  cases step with
  | alloc call =>
      obtain ⟨paging', -, same⟩ := paging.alloc call
      exact inv.grow paging paging' (fun _ _ held => held) (fun _ there => there) rfl
        (same.selfAddressed inv.addressed)
  | create call =>
      obtain ⟨mem₁, answer, made⟩ := pagingCreateDirectory_eq_ok.mp call
      have nonnull := harmless _ _ answer
      obtain ⟨-, paging', -⟩ := paging.pagingCreateDirectory_spec call nonnull
      refine inv.grow paging paging' (fun _ _ held => held)
        (fun _ there => List.mem_cons_of_mem _ there) (by rw [made])
        (paging.selfAddressed_pagingCreateDirectory inv.addressed call nonnull)
  | @map dir virt flags answer s' member call =>
      have mapped := paging.pagingMapPage_spec member harmless flags
      rw [call] at mapped
      obtain ⟨-, -, m', acquired, paging', -⟩ := mapped
      exact inv.grow paging paging'
        (fun _ _ held => Assignment.unitOf_acquire_of_held acquired held)
        (fun _ there => there) (pagingMapPage_cr3 call)
        (paging.selfAddressed_pagingMapPage inv.addressed member harmless call)
  | unmap virt member =>
      obtain ⟨paging', -, same⟩ := paging.pagingUnmapPage_spec member virt
      refine ⟨⟨_, paging'⟩, same.selfAddressed inv.addressed, ?_,
        (inv.coherent_unmap_iff virt member).mpr harmless⟩
      rw [pagingUnmapPage_cr3]
      exact inv.loaded
  | switch member =>
      refine ⟨⟨m, paging.congr rfl rfl rfl⟩, inv.addressed, ?_, coherent_empty _⟩
      rw [show (pagingSwitchDirectory _ st.machine).cr3 = _ from inv.addressed _ member]
      exact member
  | access present =>
      exact ⟨⟨m, paging⟩, inv.addressed, inv.loaded, inv.coherent.insert present⟩
  | flush fewer => exact ⟨⟨m, paging⟩, inv.addressed, inv.loaded, inv.coherent.mono fewer⟩

/-- **The invariant holds in every state of a run of harmless steps.** -/
theorem TlbRun.inv {totalMemory : Word} {st : TlbState}
    (run : TlbRun totalMemory (fun st event => event.Harmless kernelHeap st) st) :
    TlbInv kernelHeap st := by
  induction run with
  | @init s s' boot call =>
      obtain ⟨paging, -⟩ := pagingInit_kernel_spec boot call
      obtain ⟨addressed, loaded⟩ :=
        pagingInit_selfAddressed boot.bootingKernel (boot.nonNull totalMemory) call
      refine ⟨⟨_, paging⟩, addressed, ?_, coherent_empty _⟩
      rw [loaded]
      exact List.mem_cons_self
  | step _ harmless step ih => exact ih.step harmless step

/-! ## Runs -/

/-- **Nothing stale in a harmless run.** If no cached page of the loaded directory is unmapped
and no directory or table is placed at `NULL`, then in every state each cached pair is what the
loaded directory has, and its frame is marked and backs that page alone. -/
theorem no_stale_translation {totalMemory : Word} {st : TlbState}
    (run : TlbRun totalMemory (fun st event => event.Harmless kernelHeap st) st) :
    NoStaleTranslation st :=
  run.inv.noStaleTranslation

/-- With 16 MiB `paging_init` returns, and an access then caches the page it goes to. -/
theorem exists_cached (Allowed : TlbState → TlbEvent → Prop) (virt : Word)
    (allowed : ∀ st, Allowed st (.access virt)) (first : virt.toNat < 0x400000) :
    ∃ st frame, TlbRun 0x1000000 Allowed st ∧ TlbInv kernelHeap st ∧
      st.tlb = {(pageOf virt, frame)} := by
  obtain ⟨s, boot⟩ := exists_kernelBoot
  obtain ⟨s', call⟩ := (pagingInit_returns_iff boot).mpr
    (show 0x500000 ≤ (0x1000000 : Word).toNat by decide)
  have inv := (TlbRun.init boot call).inv
  have present : (⟨s', [s'.kernelDirectory], ∅⟩ : TlbState).translation (pageOf virt) =
      some (BitVec.ofNat 32 (256 + (pageOf virt).toNat)) := by
    rw [TlbState.translation, (pagingInit_kernel_spec boot call).1.lookup_pageAddress inv.loaded]
    rw [show s'.cr3 = s'.kernelDirectory from List.mem_singleton.mp inv.loaded,
      unitOf_mappedPool _ _ first]
    rfl
  have access : TlbStep kernelHeap.alloc ⟨s', [s'.kernelDirectory], ∅⟩ (.access virt) _ :=
    .access present
  have harmless : (TlbEvent.access virt).Harmless kernelHeap ⟨s', [s'.kernelDirectory], ∅⟩ :=
    trivial
  exact ⟨_, _, (TlbRun.init boot call).step (allowed _) access, inv.step harmless access,
    insert_empty_eq _⟩

theorem no_stale_translation_unmapped : ∃ st : TlbState, st.tlb.Nonempty ∧
    NoStaleTranslation
      { st with machine := pagingUnmapPage st.machine.cr3 0x3000 st.machine } := by
  obtain ⟨st, frame, run, inv, tlb⟩ := exists_cached
    (fun st event => event.Harmless kernelHeap st) 0x5000 (fun _ => trivial) (by decide)
  have harmless : (TlbEvent.unmap st.machine.cr3 0x3000).Harmless kernelHeap st := by
    intro _ other cached
    rw [tlb, Set.mem_singleton_iff] at cached
    exact absurd (Prod.mk.inj cached).1 (by decide)
  refine ⟨st, ?_, no_stale_translation (run.step harmless (.unmap 0x3000 inv.loaded))⟩
  rw [tlb]
  exact Set.singleton_nonempty _

/-- An access and `paging_unmap_page` of the same page leave a stale pair. -/
theorem unmapped_page_stays_cached : ∃ st, TlbRun 0x1000000 (fun _ _ => True) st ∧
    ¬ NoStaleTranslation st := by
  obtain ⟨st, frame, run, inv, tlb⟩ :=
    exists_cached (fun _ _ => True) 0x3000 (fun _ => trivial) (by decide)
  have cached : (pageOf 0x3000, frame) ∈ st.tlb := by
    rw [tlb]
    exact Set.mem_singleton _
  refine ⟨_, run.step trivial (.unmap 0x3000 inv.loaded), fun fresh => ?_⟩
  have agrees := fresh.agrees _ _ cached
  rw [(inv.unmap_cached cached).1] at agrees
  contradiction

end CocosOS.Kernel.Memory
