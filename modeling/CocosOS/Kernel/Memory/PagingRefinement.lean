import CocosOS.Kernel.Memory.PagingRegions
import CocosOS.Library.SharedPool

/-!
# Paging refines a pool of frames

`Refines` compares the machine with a pool of frames whose keys are pairs of a directory and a
page: the marks are the bits of the bitmap, and the unit a key holds is the frame that the walk
of the kernel finds.

Each operation is one step of the pool. A new table is invisible (`ensureTable_spec`), an absent
page acquires a frame (`ensureFrame_spec`, `pagingMapPage_spec`), `paging_unmap_page` releases
one (`pagingUnmapPage_spec`), and a new directory has no page (`pagingCreateDirectory_spec`).
-/

set_option autoImplicit false

namespace CocosOS.Kernel.Memory

open Library.ByteMemory Library.SharedPool

/-! ## The pool -/

/-- Who may hold a frame: a page of a directory. -/
abbrev Page := Word × BitVec 20

/-- The machine shows the pool: the marks are the bits of the bitmap, and the frame of a page
is the one that the walk finds. A word that is no directory has no page. -/
structure Refines (s : Machine) (dirs : List Word) (m : Assignment Page) : Prop where
  total : m.total = s.totalFrames.toNat
  taken : ∀ i < s.totalFrames.toNat, m.taken i = marks s i
  mapped : ∀ dir ∈ dirs, ∀ virt, lookup s.mem dir virt =
    (m.unitOf (dir, pageOf virt)).map (BitVec.ofNat 32)
  unknown : ∀ dir, dir ∉ dirs → ∀ page, m.unitOf (dir, page) = none

/-- What neither a mark nor a walk shows keeps the pool. -/
theorem Refines.congr {s s' : Machine} {dirs : List Word} {m : Assignment Page}
    (refines : Refines s dirs m) (total : s'.totalFrames = s.totalFrames)
    (marks_eq : ∀ i < s.totalFrames.toNat, marks s' i = marks s i)
    (lookup_eq : ∀ dir ∈ dirs, ∀ virt, lookup s'.mem dir virt = lookup s.mem dir virt) :
    Refines s' dirs m := by
  refine ⟨by rw [total]; exact refines.total, fun i lt => ?_, fun dir member virt => ?_,
    refines.unknown⟩
  · rw [total] at lt
    rw [marks_eq i lt]
    exact refines.taken i lt
  · rw [lookup_eq dir member virt]
    exact refines.mapped dir member virt

/-- The invariant of paging. The frames below 256 are never handed out. -/
structure PagingInv (A : Allocator) (s : Machine) (dirs : List Word) (m : Assignment Page) :
    Prop where
  separated : Separated A s dirs
  refines : Refines s dirs m
  owned : Owned 256 m

/-- What a step on pages does not change. -/
structure Kept (s s' : Machine) : Prop where
  totalFrames : s'.totalFrames = s.totalFrames
  kernelDirectory : s'.kernelDirectory = s.kernelDirectory
  surplus : surplus s' = surplus s

theorem Kept.refl (s : Machine) : Kept s s := ⟨rfl, rfl, rfl⟩

theorem Kept.trans {s s' s'' : Machine} (first : Kept s s') (second : Kept s' s'') :
    Kept s s'' :=
  ⟨second.totalFrames.trans first.totalFrames,
    second.kernelDirectory.trans first.kernelDirectory, second.surplus.trans first.surplus⟩

namespace PagingInv

variable {A : Allocator} {s : Machine} {dirs : List Word} {m : Assignment Page}
  (inv : PagingInv A s dirs m)
include inv

/-- A page that holds a frame is found by the walk. -/
theorem lookup_of_held {dir virt : Word} (member : dir ∈ dirs) {i : ℕ}
    (held : m.unitOf (dir, pageOf virt) = some i) :
    lookup s.mem dir virt = some (BitVec.ofNat 32 i) := by
  rw [inv.refines.mapped dir member virt, held]
  rfl

theorem lookup_of_not_held {dir virt : Word} (member : dir ∈ dirs)
    (absent : m.unitOf (dir, pageOf virt) = none) : lookup s.mem dir virt = none := by
  rw [inv.refines.mapped dir member virt, absent]
  rfl

/-- The lowest free frame is the one that `paging_allocate_frame` takes. -/
theorem pagingAllocateFrame_some {i : ℕ} (lowest : m.lowestFree = some i) :
    pagingAllocateFrame s = .ok (BitVec.ofNat 32 i, takeFrame (BitVec.ofNat 32 i) s) := by
  obtain ⟨lt, clear, below⟩ := Assignment.lowestFree_eq_some.mp lowest
  rw [inv.refines.total] at lt
  have found : (List.range s.totalFrames.toNat).find? (fun j => !marks s j) = some i := by
    rw [List.find?_range_eq_some, List.mem_range]
    refine ⟨?_, lt, fun j before => ?_⟩
    · rw [← inv.refines.taken i lt, clear]
      rfl
    · rw [← inv.refines.taken j (Nat.lt_trans before lt), below j before]
      rfl
  rw [pagingAllocateFrame_eq, found]

theorem pagingAllocateFrame_none (full : m.lowestFree = none) :
    pagingAllocateFrame s = .error .panic := by
  have taken := Assignment.lowestFree_eq_none.mp full
  rcases pagingAllocateFrame_cases s with ⟨i, lt, clear, -⟩ | ⟨-, panics⟩
  · have marked := inv.refines.taken i lt
    rw [taken i (by rw [inv.refines.total]; exact lt), clear] at marked
    contradiction
  · exact panics

end PagingInv

/-! ## Calls -/

/-- A call that returns has returned from each of its parts. -/
theorem bind_eq_ok {α β : Type} {x : Except Stop α} {f : α → Except Stop β} {b : β} :
    x >>= f = .ok b ↔ ∃ a, x = .ok a ∧ f a = .ok b := by
  cases x with
  | error stop => exact ⟨nofun, fun ⟨_, absurd, _⟩ => nomatch absurd⟩
  | ok a =>
      constructor
      · exact fun call => ⟨a, rfl, call⟩
      · rintro ⟨_, ⟨⟩, call⟩
        exact call

theorem callAlloc_eq_ok {alloc : MemoryAlloc} {n p : Word} {s s' : Machine} :
    callAlloc alloc n s = .ok (p, s') ↔
      ∃ mem', alloc n s.mem = some (p, mem') ∧ s' = { s with mem := mem' } := by
  rw [callAlloc]
  cases alloc n s.mem with
  | none => exact ⟨nofun, fun ⟨_, absurd, _⟩ => nomatch absurd⟩
  | some answer =>
      constructor
      · rintro ⟨⟩
        exact ⟨_, rfl, rfl⟩
      · rintro ⟨mem', ⟨⟩, rfl⟩
        rfl

theorem callAlloc_of_some {alloc : MemoryAlloc} {n p : Word} {s : Machine} {mem' : Mem}
    (call : alloc n s.mem = some (p, mem')) :
    callAlloc alloc n s = .ok (p, { s with mem := mem' }) := by
  rw [callAlloc, call]

theorem callAlloc_of_none {alloc : MemoryAlloc} {n : Word} {s : Machine}
    (call : alloc n s.mem = none) : callAlloc alloc n s = .error .endless := by
  rw [callAlloc, call]

/-- `NULL` is no answer to the request that `ensureTable` may make. -/
def TableNonNull (A : Allocator) (dir virt : Word) (s : Machine) : Prop :=
  PageDirectory.present s.mem dir (pdIndex virt) = false →
    ∀ p mem', A.alloc PageTable.sizeof s.mem = some (p, mem') → p ≠ 0

theorem tableNonNull_of_neverNull {A : Allocator} (never : A.NeverNull) (dir virt : Word)
    (s : Machine) : TableNonNull A dir virt s :=
  fun _ => never _ _

/-- The memory after `ensureTable` entered the table it was given. -/
theorem ensureTable_of_absent {alloc : MemoryAlloc} {dir virt flags table : Word} {s : Machine}
    {mem' : Mem} (absent : PageDirectory.present s.mem dir (pdIndex virt) = false)
    (call : alloc PageTable.sizeof s.mem = some (table, mem')) :
    ensureTable alloc dir virt flags s = .ok { s with
      mem := PageDirectory.enter dir (pdIndex virt) (table ||| flags ||| pagePresent) table
        (fill mem' table 0 PageTable.sizeof) } := by
  rw [ensureTable, absent, callAlloc_of_some call]
  rfl

/-- A call of `ensureTable` that returns either finds a table or enters a new one. -/
theorem ensureTable_eq_ok {alloc : MemoryAlloc} {dir virt flags : Word} {s s' : Machine} :
    ensureTable alloc dir virt flags s = .ok s' ↔
      (PageDirectory.present s.mem dir (pdIndex virt) = true ∧ s' = s) ∨
      (PageDirectory.present s.mem dir (pdIndex virt) = false ∧ ∃ table mem',
        alloc PageTable.sizeof s.mem = some (table, mem') ∧ s' = { s with
          mem := PageDirectory.enter dir (pdIndex virt) (table ||| flags ||| pagePresent) table
            (fill mem' table 0 PageTable.sizeof) }) := by
  cases present : PageDirectory.present s.mem dir (pdIndex virt) with
  | true =>
      rw [ensureTable, if_pos present]
      constructor
      · exact fun call => Or.inl ⟨rfl, (Except.ok.inj call).symm⟩
      · rintro (⟨-, rfl⟩ | ⟨absent, -⟩)
        · rfl
        · contradiction
  | false =>
      constructor
      · intro call
        cases answer : alloc PageTable.sizeof s.mem with
        | none =>
            rw [ensureTable, present, callAlloc_of_none answer] at call
            contradiction
        | some pair =>
            rw [ensureTable_of_absent present answer] at call
            exact Or.inr ⟨rfl, pair.1, pair.2, rfl, (Except.ok.inj call).symm⟩
      · rintro (⟨there, -⟩ | ⟨-, table, mem', answer, rfl⟩)
        · contradiction
        · exact ensureTable_of_absent present answer

theorem pagingCreateDirectory_eq_ok {alloc : MemoryAlloc} {s s' : Machine} {dir : Word} :
    pagingCreateDirectory alloc s = .ok (dir, s') ↔
      ∃ mem', alloc PageDirectory.sizeof s.mem = some (dir, mem') ∧
        s' = { s with mem := PageDirectory.create dir mem' } := by
  rw [pagingCreateDirectory, bind_eq_ok]
  constructor
  · rintro ⟨⟨p, s₁⟩, call, made⟩
    obtain ⟨mem', answer, rfl⟩ := callAlloc_eq_ok.mp call
    obtain ⟨rfl, rfl⟩ := Prod.mk.inj (Except.ok.inj made)
    exact ⟨mem', answer, rfl⟩
  · rintro ⟨mem', answer, rfl⟩
    exact ⟨_, callAlloc_of_some answer, rfl⟩

/-- A frame that is handed out is one of the frames there are, and is taken. -/
theorem pagingAllocateFrame_ok {s s' : Machine} {frame : Word}
    (call : pagingAllocateFrame s = .ok (frame, s')) :
    frame.toNat < s.totalFrames.toNat ∧ s' = takeFrame frame s := by
  rcases pagingAllocateFrame_cases s with ⟨i, lt, -, -, answer⟩ | ⟨-, panics⟩
  · rw [answer] at call
    obtain ⟨rfl, rfl⟩ := Prod.mk.inj (Except.ok.inj call)
    have bound := s.totalFrames.isLt
    refine ⟨?_, rfl⟩
    rw [BitVec.toNat_ofNat]
    omega
  · rw [panics] at call
    contradiction

theorem ensureTable_variables {alloc : MemoryAlloc} {dir virt flags : Word} {s s' : Machine}
    (call : ensureTable alloc dir virt flags s = .ok s') :
    s'.totalFrames = s.totalFrames ∧ s'.kernelDirectory = s.kernelDirectory := by
  rcases ensureTable_eq_ok.mp call with ⟨-, rfl⟩ | ⟨-, table, mem', -, rfl⟩
  · exact ⟨rfl, rfl⟩
  · exact ⟨rfl, rfl⟩

theorem ensureFrame_variables {dir virt flags : Word} {s s' : Machine}
    (call : ensureFrame dir virt flags s = .ok s') :
    s'.totalFrames = s.totalFrames ∧ s'.kernelDirectory = s.kernelDirectory := by
  rw [ensureFrame] at call
  dsimp only at call
  split at call
  · obtain rfl := Except.ok.inj call
    exact ⟨rfl, rfl⟩
  · obtain ⟨⟨frame, s₁⟩, taken, last⟩ := bind_eq_ok.mp call
    obtain rfl := Except.ok.inj last
    obtain rfl := (pagingAllocateFrame_ok taken).2
    exact ⟨rfl, rfl⟩

namespace PagingInv

variable {A : Allocator} {s : Machine} {dirs : List Word} {m : Assignment Page}
  (inv : PagingInv A s dirs m)
include inv

/-! ### `paging_map_page` -/

/-- **A new table is invisible**: the pool does not change. The call returns unless
`Memory_alloc` does not. -/
theorem ensureTable_spec {dir virt : Word} (member : dir ∈ dirs)
    (nonnull : TableNonNull A dir virt s) (flags : Word) :
    match ensureTable A.alloc dir virt flags s with
    | .ok s' => PagingInv A s' dirs m ∧ Kept s s' ∧
        PageDirectory.present s'.mem dir (pdIndex virt) = true
    | .error stop => stop = .endless ∧ PageDirectory.present s.mem dir (pdIndex virt) = false ∧
        A.alloc PageTable.sizeof s.mem = none := by
  cases present : PageDirectory.present s.mem dir (pdIndex virt) with
  | true =>
      rw [ensureTable, if_pos present]
      exact ⟨inv, Kept.refl s, present⟩
  | false =>
      cases call : A.alloc PageTable.sizeof s.mem with
      | none =>
          rw [ensureTable, present, callAlloc_of_none call]
          exact ⟨rfl, rfl, rfl⟩
      | some answer =>
          obtain ⟨table, mem₁⟩ := answer
          rw [ensureTable_of_absent present call]
          generalize made : PageDirectory.enter dir (pdIndex virt) _ table _ = mem'
          obtain ⟨separated, added⟩ := inv.separated.addTable member (pdIndex_lt virt)
            call (nonnull present _ _ call) made.symm
          have marks_eq : ∀ i < s.totalFrames.toNat,
              marks { s with mem := mem' } i = marks s i := fun i lt =>
            inv.separated.marks_congr lt rfl
              (added.others .bitmap (Nat.lt_of_le_of_lt (Nat.zero_le i) lt) (by rintro ⟨⟩))
          refine ⟨⟨separated, ?_, inv.owned⟩, ⟨rfl, rfl, surplus_congr rfl rfl marks_eq⟩, ?_⟩
          · exact inv.refines.congr rfl marks_eq fun dir' member' virt' =>
              added.lookup_eq inv.separated present member'
          · dsimp only
            rw [PageDirectory.present_eq, added.entry_eq]
            exact PageDirectory.present_entered table flags

/-- A store to the bitmap and one to the entry of a page, which the pool sees as a change of the
marks and of what that page holds. -/
theorem exchange {m' : Assignment Page} (s₁ s₂ : Machine) {dir virt value : Word}
    (member : dir ∈ dirs) (here : PageDirectory.present s.mem dir (pdIndex virt) = true)
    (some_frames : 0 < s.totalFrames.toNat) (bitmap₁ : s₁.frameBitmap = s.frameBitmap)
    (total₁ : s₁.totalFrames = s.totalFrames)
    (frame : ∀ x, ¬ Covers (bitmapExtent s).addr (bitmapExtent s).length x →
      s₁.mem x = s.mem x)
    (bitmap₂ : s₂.frameBitmap = s₁.frameBitmap) (total₂ : s₂.totalFrames = s₁.totalFrames)
    (used₂ : s₂.usedFrames = s₁.usedFrames)
    (made : s₂.mem = PageTable.setEntry (PageDirectory.table s.mem dir (pdIndex virt))
      (ptIndex virt) value s₁.mem)
    (owned : Owned 256 m') (total : m'.total = m.total)
    (taken : ∀ j < s.totalFrames.toNat, m'.taken j = marks s₁ j)
    (unit : (m'.unitOf (dir, pageOf virt)).map (BitVec.ofNat 32) = backing value)
    (units : ∀ key, key ≠ (dir, pageOf virt) → m'.unitOf key = m.unitOf key) :
    PagingInv A s₂ dirs m' ∧ SameDirectories dirs s.mem s₂.mem ∧ surplus s₂ = surplus s₁ := by
  obtain ⟨sep₁, same₁, lookup₁⟩ :=
    inv.separated.storeBitmap s₁ some_frames bitmap₁ total₁ frame
  have here₁ := (same₁.present member (pdIndex_lt virt)).trans here
  rw [← ((same₁ dir member).2 _ (pdIndex_lt virt)).2] at made
  obtain ⟨sep₂, same₂, marks₂, lookup₂⟩ := sep₁.storeEntry s₂ member here₁ bitmap₂ total₂ made
  refine ⟨⟨sep₂, ⟨?_, fun j lt => ?_, ?_, ?_⟩, owned⟩, same₁.trans same₂,
    surplus_congr total₂ used₂ marks₂⟩
  · rw [total, total₂, total₁]
    exact inv.refines.total
  · rw [total₂] at lt
    rw [marks₂ j lt]
    rw [total₁] at lt
    exact taken j lt
  · intro dir' member' virt'
    rw [lookup₂ dir' member' virt', lookup₁ dir' member' virt']
    by_cases page : dir' = dir ∧ pageOf virt' = pageOf virt
    · rw [if_pos page, page.1, page.2, unit]
    · have other : (dir', pageOf virt') ≠ (dir, pageOf virt) := by
        rw [Ne, Prod.mk.injEq]
        exact page
      rw [if_neg page, units _ other]
      exact inv.refines.mapped dir' member' virt'
  · intro dir' stranger page
    have other : (dir', page) ≠ (dir, pageOf virt) := fun same =>
      stranger ((Prod.mk.inj same).1 ▸ member)
    rw [units _ other]
    exact inv.refines.unknown dir' stranger page

/-- The machine after `paging_map_page` filled in an entry for the frame `i`. -/
def filled (dir virt flags : Word) (i : ℕ) (s : Machine) : Machine :=
  let table := PageDirectory.table s.mem dir (pdIndex virt)
  let s := takeFrame (BitVec.ofNat 32 i) s
  let entry := mappedEntry (BitVec.ofNat 32 i) flags (PageTable.entry s.mem table (ptIndex virt))
  { s with mem := PageTable.setEntry table (ptIndex virt) entry s.mem }

/-- Taking a frame for an absent page is what the pool does when it gives one out. -/
theorem give {dir virt : Word} (member : dir ∈ dirs)
    (here : PageDirectory.present s.mem dir (pdIndex virt) = true) (flags : Word) {i : ℕ}
    (absent : m.unitOf (dir, pageOf virt) = none) (lowest : m.lowestFree = some i) :
    PagingInv A (filled dir virt flags i s) dirs (m.give (dir, pageOf virt) i) ∧
      Kept s (filled dir virt flags i s) ∧
      SameDirectories dirs s.mem (filled dir virt flags i s).mem := by
  obtain ⟨lt, clear, -⟩ := Assignment.lowestFree_eq_some.mp lowest
  have owned := inv.owned.give absent lt clear
  rw [inv.refines.total] at lt
  rw [inv.refines.taken i lt] at clear
  have small := inv.separated.small
  have value : (BitVec.ofNat 32 i).toNat = i := by
    rw [BitVec.toNat_ofNat]
    omega
  have some_frames : Region.bitmap.Live s dirs := Nat.lt_of_le_of_lt (Nat.zero_le i) lt
  obtain ⟨after, same, counted⟩ := inv.exchange (takeFrame (BitVec.ofNat 32 i) s)
    (filled dir virt flags i s) member here some_frames rfl rfl
    (fun x outside => takeFrame_apply (inv.separated.fits some_frames) small
      (by rw [value]; exact lt) outside)
    rfl rfl rfl rfl owned rfl
    (fun j bound => by
      by_cases same : j = i
      · rw [same, Assignment.taken_give_self, marks, frameMarked_takeFrame_self]
      · rw [Assignment.taken_give_of_ne _ _ _ same,
          marks_takeFrame_of_ne (by omega) (by omega) same]
        exact inv.refines.taken j bound)
    (by rw [Assignment.unitOf_give_self, backing_mappedEntry _ _ (by rw [value]; omega)]; rfl)
    (fun key other => Assignment.unitOf_give_of_ne _ _ _ other)
  exact ⟨after, ⟨rfl, rfl, counted.trans (surplus_takeFrame s lt clear)⟩, same⟩

/-- **An absent page acquires the lowest free frame**, and the call panics when there is none.
A present page keeps its frame. -/
theorem ensureFrame_spec {dir virt : Word} (member : dir ∈ dirs)
    (here : PageDirectory.present s.mem dir (pdIndex virt) = true) (flags : Word) :
    match ensureFrame dir virt flags s with
    | .ok s' => ∃ m', m.acquire (dir, pageOf virt) = some m' ∧ PagingInv A s' dirs m' ∧
        Kept s s' ∧ SameDirectories dirs s.mem s'.mem
    | .error stop => stop = .panic ∧ m.acquire (dir, pageOf virt) = none := by
  cases held : m.unitOf (dir, pageOf virt) with
  | some i =>
      have found := inv.lookup_of_held member held
      rw [ensureFrame, if_pos (lookup_eq_some found).2.1]
      exact ⟨m, Assignment.acquire_of_held held, inv, Kept.refl s, fun _ _ =>
        ⟨rfl, fun _ _ => ⟨rfl, rfl⟩⟩⟩
  | none =>
      have missing := inv.lookup_of_not_held member held
      rw [lookup_of_present here, backing, ite_eq_right_iff] at missing
      have empty : ¬ PageTableEntry.present (PageTable.entry s.mem
          (PageDirectory.table s.mem dir (pdIndex virt)) (ptIndex virt)) = true :=
        fun there => Option.some_ne_none _ (missing there)
      rw [Assignment.acquire_of_not_held held, ensureFrame]
      dsimp only
      rw [if_neg empty]
      cases lowest : m.lowestFree with
      | none =>
          rw [inv.pagingAllocateFrame_none lowest]
          exact ⟨rfl, rfl⟩
      | some i =>
          rw [inv.pagingAllocateFrame_some lowest]
          exact ⟨_, rfl, inv.give member here flags held lowest⟩

/-- **`paging_map_page` is an acquisition.** It returns unless every frame is marked or
`Memory_alloc` does not return. -/
theorem pagingMapPage_spec {dir virt : Word} (member : dir ∈ dirs)
    (nonnull : TableNonNull A dir virt s) (flags : Word) :
    match pagingMapPage A.alloc dir virt flags s with
    | .ok (answer, s') => answer = virt ∧
        PageDirectory.present s'.mem dir (pdIndex virt) = true ∧
        ∃ m', m.acquire (dir, pageOf virt) = some m' ∧ PagingInv A s' dirs m' ∧ Kept s s'
    | .error .panic => m.acquire (dir, pageOf virt) = none
    | .error .endless => PageDirectory.present s.mem dir (pdIndex virt) = false ∧
        A.alloc PageTable.sizeof s.mem = none := by
  have first := inv.ensureTable_spec member nonnull flags
  rw [pagingMapPage]
  cases tables : ensureTable A.alloc dir virt flags s with
  | error stop =>
      rw [tables] at first
      obtain ⟨rfl, absent⟩ := first
      exact absent
  | ok s₁ =>
      rw [tables] at first
      obtain ⟨inv₁, kept₁, here⟩ := first
      have second := inv₁.ensureFrame_spec member here flags
      show match (ensureFrame dir virt flags s₁).bind fun s => .ok (virt, s) with
        | .ok (answer, s') => _
        | .error .panic => _
        | .error .endless => _
      cases frames : ensureFrame dir virt flags s₁ with
      | error stop =>
          rw [frames] at second
          obtain ⟨rfl, full⟩ := second
          exact full
      | ok s₂ =>
          rw [frames] at second
          obtain ⟨m', acquired, inv₂, kept₂, same⟩ := second
          have still := (same.present member (pdIndex_lt virt)).trans here
          exact ⟨rfl, still, m', acquired, inv₂, kept₁.trans kept₂⟩

/-! ### `paging_unmap_page` -/

/-- The machine after `paging_unmap_page` cleared an entry for the frame `i`. -/
def emptied (dir virt : Word) (i : ℕ) (s : Machine) : Machine :=
  let table := PageDirectory.table s.mem dir (pdIndex virt)
  let s := pagingFreeFrame (BitVec.ofNat 32 i) s
  let entry := PageTable.entry s.mem table (ptIndex virt)
  { s with
    mem := PageTable.setEntry table (ptIndex virt)
      (PageTableEntry.setFlag pagePresent false entry) s.mem }

/-- Clearing the entry of a present page is what the pool does when it takes a frame back. -/
theorem revoke {dir virt : Word} (member : dir ∈ dirs) {i : ℕ}
    (held : m.unitOf (dir, pageOf virt) = some i) :
    PagingInv A (emptied dir virt i s) dirs (m.revoke (dir, pageOf virt) i) ∧
      Kept s (emptied dir virt i s) ∧
      SameDirectories dirs s.mem (emptied dir virt i s).mem := by
  have here := (lookup_eq_some (inv.lookup_of_held member held)).1
  obtain ⟨-, lt, marked⟩ := inv.owned.held _ _ held
  have owned := inv.owned.revoke held
  rw [inv.refines.total] at lt
  rw [inv.refines.taken i lt] at marked
  have small := inv.separated.small
  have value : (BitVec.ofNat 32 i).toNat = i := by
    rw [BitVec.toNat_ofNat]
    omega
  have some_frames : Region.bitmap.Live s dirs := Nat.lt_of_le_of_lt (Nat.zero_le i) lt
  obtain ⟨after, same, counted⟩ := inv.exchange (pagingFreeFrame (BitVec.ofNat 32 i) s)
    (emptied dir virt i s) member here some_frames rfl rfl
    (fun x outside => freeFrame_apply (inv.separated.fits some_frames) small
      (by rw [value]; exact lt) outside)
    rfl rfl rfl rfl owned rfl
    (fun j bound => by
      by_cases same : j = i
      · rw [same, Assignment.taken_revoke_self, marks, frameMarked_freeFrame_self]
      · rw [Assignment.taken_revoke_of_ne _ _ _ same,
          marks_freeFrame_of_ne (by omega) (by omega) same]
        exact inv.refines.taken j bound)
    (by rw [Assignment.unitOf_revoke_self, backing_setFlag_absent]; rfl)
    (fun key other => Assignment.unitOf_revoke_of_ne _ _ _ other)
  exact ⟨after, ⟨rfl, rfl, counted.trans (surplus_freeFrame s lt marked)⟩, same⟩

/-- **`paging_unmap_page` is a release.** -/
theorem pagingUnmapPage_spec {dir : Word} (member : dir ∈ dirs) (virt : Word) :
    PagingInv A (pagingUnmapPage dir virt s) dirs (m.release (dir, pageOf virt)) ∧
      Kept s (pagingUnmapPage dir virt s) ∧
      SameDirectories dirs s.mem (pagingUnmapPage dir virt s).mem := by
  cases held : m.unitOf (dir, pageOf virt) with
  | some i =>
      obtain ⟨here, entry, frame⟩ := lookup_eq_some (inv.lookup_of_held member held)
      have cleared : pagingUnmapPage dir virt s = emptied dir virt i s := by
        rw [pagingUnmapPage, if_pos here, if_pos entry, frame]
        rfl
      rw [cleared, Assignment.release_of_held held]
      exact inv.revoke member held
  | none =>
      have missing := inv.lookup_of_not_held member held
      have unchanged : pagingUnmapPage dir virt s = s := by
        rw [pagingUnmapPage]
        split
        · rename_i here
          rw [lookup_of_present here, backing, ite_eq_right_iff] at missing
          dsimp only
          rw [if_neg fun there => Option.some_ne_none _ (missing there)]
        · rfl
      rw [unchanged, Assignment.release_of_not_held held]
      exact ⟨inv, Kept.refl s, fun _ _ => ⟨rfl, fun _ _ => ⟨rfl, rfl⟩⟩⟩

/-! ### Steps of others -/

/-- The invariant depends on the memory and on where the bitmap is. -/
theorem congr {s' : Machine} (mem : s'.mem = s.mem) (bitmap : s'.frameBitmap = s.frameBitmap)
    (total : s'.totalFrames = s.totalFrames) : PagingInv A s' dirs m := by
  obtain ⟨blocks, allocated, old⟩ := inv.separated.allocated
  have same : SameDirectories dirs s.mem s'.mem := by
    rw [mem]
    exact fun _ _ => ⟨rfl, fun _ _ => ⟨rfl, rfl⟩⟩
  have marks_eq : ∀ i < s.totalFrames.toNat, marks s' i = marks s i := fun i _ =>
    frameMarked_congr bitmap (by rw [mem])
  refine ⟨inv.separated.keep (by rw [total]; exact inv.separated.small)
    (by rw [mem]; exact allocated) old fun r live => same.regions bitmap total live,
    inv.refines.congr total marks_eq fun dir _ virt => by rw [mem], inv.owned⟩

/-- `Memory_alloc` for somebody else leaves the pool alone. -/
theorem alloc {n p : Word} {mem' : Mem} (call : A.alloc n s.mem = some (p, mem')) :
    PagingInv A { s with mem := mem' } dirs m ∧ Kept s { s with mem := mem' } ∧
      SameDirectories dirs s.mem mem' := by
  obtain ⟨blocks, allocated, old⟩ := inv.separated.allocated
  have kept : ∀ r : Region, r.Live s dirs → (r.extent s).SameOn s.mem mem' :=
    fun r live => A.keeps allocated call _ (old r live)
  have same := inv.separated.sameDirectories_of_kept kept
  -- only the memory differs; the record is named so that no step looks into it
  generalize changed : ({ s with mem := mem' } : Machine) = s'
  have mem_eq : mem' = s'.mem := congrArg Machine.mem changed
  have bitmap : s'.frameBitmap = s.frameBitmap := (congrArg Machine.frameBitmap changed).symm
  have total : s'.totalFrames = s.totalFrames := (congrArg Machine.totalFrames changed).symm
  have used : s'.usedFrames = s.usedFrames := (congrArg Machine.usedFrames changed).symm
  have kernel : s'.kernelDirectory = s.kernelDirectory :=
    (congrArg Machine.kernelDirectory changed).symm
  subst mem_eq
  have small : s'.totalFrames.toNat < 2 ^ 20 := by
    rw [total]
    exact inv.separated.small
  have separated : Separated A s' dirs := inv.separated.keep small (A.holds allocated call) old
    fun r live => same.regions bitmap total live
  have marks_eq : ∀ i < s.totalFrames.toNat, marks s' i = marks s i := fun i lt =>
    inv.separated.marks_congr lt bitmap (kept .bitmap (Nat.lt_of_le_of_lt (Nat.zero_le i) lt))
  have walks : ∀ dir ∈ dirs, ∀ virt, lookup s'.mem dir virt = lookup s.mem dir virt :=
    fun dir member virt => inv.separated.lookup_of_kept kept member virt
  exact ⟨⟨separated, inv.refines.congr total marks_eq walks, inv.owned⟩,
    ⟨total, kernel, surplus_congr total used marks_eq⟩, same⟩

/-! ### `paging_create_directory` -/

/-- **A new directory has no page.** -/
theorem pagingCreateDirectory_spec {dir : Word} {s' : Machine}
    (call : pagingCreateDirectory A.alloc s = .ok (dir, s')) (nonnull : dir ≠ 0) :
    dir ∉ dirs ∧ PagingInv A s' (dir :: dirs) m ∧ Kept s s' := by
  obtain ⟨mem₁, answer, rfl⟩ := pagingCreateDirectory_eq_ok.mp call
  obtain ⟨stranger, separated, kept, -, empty⟩ :=
    inv.separated.addDirectory answer nonnull rfl
  have marks_eq : ∀ i < s.totalFrames.toNat,
      marks { s with mem := PageDirectory.create dir mem₁ } i = marks s i := fun i lt =>
    inv.separated.marks_congr lt rfl (kept .bitmap (Nat.lt_of_le_of_lt (Nat.zero_le i) lt))
  refine ⟨stranger, ⟨separated, ⟨inv.refines.total, fun i lt => ?_, ?_, ?_⟩, inv.owned⟩,
    ⟨rfl, rfl, surplus_congr rfl rfl marks_eq⟩⟩
  · exact (inv.refines.taken i lt).trans (marks_eq i lt).symm
  · intro dir' member virt
    rcases List.mem_cons.mp member with rfl | member
    · rw [inv.refines.unknown dir' stranger]
      exact lookup_of_absent (empty _ (pdIndex_lt virt))
    · rw [← inv.refines.mapped dir' member virt]
      exact inv.separated.lookup_of_kept kept member virt
  · intro dir' outside page
    exact inv.refines.unknown dir' (fun member => outside (List.mem_cons_of_mem _ member)) page

end PagingInv

/-! ## `paging_init` up to the directory -/

/-- The pool that `paging_init` sets up: the frames from 256 on are free, and no page holds
one. -/
def freshPool (totalMemory : Word) : Assignment Page where
  total := (totalMemory / pageSize).toNat
  taken i := decide (i < 256)
  unitOf _ := none

theorem toNat_totalFrames (totalMemory : Word) :
    (totalMemory / pageSize).toNat = totalMemory.toNat / 4096 := by
  rw [BitVec.toNat_udiv]
  rfl

theorem totalFrames_lt (totalMemory : Word) : (totalMemory / pageSize).toNat < 2 ^ 20 := by
  have bound := totalMemory.isLt
  rw [toNat_totalFrames]
  omega

theorem owned_freshPool (totalMemory : Word) : Owned 256 (freshPool totalMemory) := by
  refine ⟨fun i small _ => decide_eq_true small, ?_, ?_, fun i above _ taken => ?_⟩
  · rintro key i ⟨⟩
  · rintro key key' i ⟨⟩
  · have below := of_decide_eq_true taken
    omega

/-- The machine after the bitmap at `bitmap` was filled. -/
def bitmapFilled (totalMemory bitmap : Word) (mem₁ : Mem) (s : Machine) : Machine :=
  { s with
    totalFrames := totalMemory / pageSize
    frameBitmap := bitmap
    mem := fill mem₁ bitmap 0xFF (bitmapSize (totalMemory / pageSize)) }

theorem initFrames_of_some {alloc : MemoryAlloc} {totalMemory bitmap : Word} {s : Machine}
    {mem₁ : Mem}
    (call : alloc (bitmapSize (totalMemory / pageSize)) s.mem = some (bitmap, mem₁)) :
    initFrames alloc totalMemory s =
      .ok (freeFramesLoop ((totalMemory / pageSize).toNat - 256) (BitVec.ofNat 32 256)
        (bitmapFilled totalMemory bitmap mem₁ s)) := by
  rw [initFrames]
  dsimp only
  rw [callAlloc_of_some (s := { s with totalFrames := totalMemory / pageSize }) call]
  rfl

theorem initFrames_eq_ok {alloc : MemoryAlloc} {totalMemory : Word} {s s' : Machine} :
    initFrames alloc totalMemory s = .ok s' ↔ ∃ bitmap mem₁,
      alloc (bitmapSize (totalMemory / pageSize)) s.mem = some (bitmap, mem₁) ∧
      s' = freeFramesLoop ((totalMemory / pageSize).toNat - 256) (BitVec.ofNat 32 256)
        (bitmapFilled totalMemory bitmap mem₁ s) := by
  constructor
  · intro call
    obtain ⟨⟨bitmap, s₁⟩, asked, -⟩ := bind_eq_ok.mp call
    obtain ⟨mem₁, answer, -⟩ := callAlloc_eq_ok.mp asked
    have answered : alloc (bitmapSize (totalMemory / pageSize)) s.mem = some (bitmap, mem₁) :=
      answer
    rw [initFrames_of_some answered, Except.ok.injEq] at call
    exact ⟨bitmap, mem₁, answered, call.symm⟩
  · rintro ⟨bitmap, mem₁, answer, made⟩
    rw [initFrames_of_some answer, made]

theorem marks_bitmapFilled {totalMemory bitmap : Word} {mem₁ : Mem} {s : Machine}
    (fits : (bitmapExtent (bitmapFilled totalMemory bitmap mem₁ s)).Fits) {i : ℕ}
    (lt : i < (totalMemory / pageSize).toNat) :
    marks (bitmapFilled totalMemory bitmap mem₁ s) i = true := by
  have small := totalFrames_lt totalMemory
  have value : (BitVec.ofNat 32 i).toNat = i := by
    rw [BitVec.toNat_ofNat]
    omega
  have covered := covers_bitmapAddr (s := bitmapFilled totalMemory bitmap mem₁ s) fits small
    (show (BitVec.ofNat 32 i).toNat < (totalMemory / pageSize).toNat by rw [value]; exact lt)
  have byte : (bitmapFilled totalMemory bitmap mem₁ s).mem
      (bitmapAddr (bitmapFilled totalMemory bitmap mem₁ s) (BitVec.ofNat 32 i)) = 0xFF :=
    fill_apply_of_covers covered
  have bit : (BitVec.ofNat 32 i).toNat % 8 < 8 := Nat.mod_lt _ (by decide)
  rw [marks, frameMarked_iff, byte, show (0xFF : Byte) = BitVec.allOnes 8 from rfl,
    BitVec.getLsbD_allOnes]
  exact decide_eq_true bit

/-- `NULL` is no answer to the request for a bitmap that has bytes. -/
def BitmapNonNull (A : Allocator) (totalMemory : Word) (s : Machine) : Prop :=
  ∀ p mem', A.alloc (bitmapSize (totalMemory / pageSize)) s.mem = some (p, mem') →
    p ≠ 0 ∨ totalMemory / pageSize = 0

theorem bitmapSize_le (totalMemory : Word) :
    (bitmapSize (totalMemory / pageSize)).toNat ≤ maxRequest := by
  have small := totalFrames_lt totalMemory
  rw [toNat_bitmapSize small, maxRequest]
  omega

/-- **The bitmap is a new region**, in place of any that there was. -/
theorem Separated.addBitmap {A : Allocator} {s : Machine} {dirs : List Word}
    (sep : Separated A s dirs) {totalMemory bitmap : Word} {mem₁ : Mem}
    (nonnull : BitmapNonNull A totalMemory s)
    (call : A.alloc (bitmapSize (totalMemory / pageSize)) s.mem = some (bitmap, mem₁)) :
    Separated A (bitmapFilled totalMemory bitmap mem₁ s) dirs ∧
      ∀ r : Region, r.Live s dirs →
        (r.extent s).SameOn s.mem (bitmapFilled totalMemory bitmap mem₁ s).mem := by
  obtain ⟨blocks, allocated, old⟩ := sep.allocated
  have modest := bitmapSize_le totalMemory
  have kept₁ := A.keeps allocated call
  have frame : ∀ x, ¬ Covers bitmap (bitmapSize (totalMemory / pageSize)).toNat x →
      (bitmapFilled totalMemory bitmap mem₁ s).mem x = mem₁ x :=
    fun x outside => fill_apply_of_not_covers outside
  have small : (bitmapFilled totalMemory bitmap mem₁ s).totalFrames.toNat < 2 ^ 20 :=
    totalFrames_lt totalMemory
  by_cases null : bitmap = 0
  · -- the request was for no bytes, and there is no bitmap
    have no_frames := (nonnull _ _ call).resolve_left (not_not.mpr null)
    have unchanged : (bitmapFilled totalMemory bitmap mem₁ s).mem = mem₁ := by
      funext x
      refine frame x fun inside => ?_
      rw [no_frames] at inside
      exact Nat.lt_irrefl _ (Nat.lt_of_le_of_lt inside.1 inside.2)
    have kept : ∀ r : Region, r.Live s dirs →
        (r.extent s).SameOn s.mem (bitmapFilled totalMemory bitmap mem₁ s).mem := by
      intro r live
      rw [unchanged]
      exact kept₁ _ (old r live)
    have books : A.Allocated blocks (bitmapFilled totalMemory bitmap mem₁ s).mem := by
      rw [unchanged]
      exact A.holds allocated call
    refine ⟨sep.keep small books old fun r live => ?_, kept⟩
    refine (sep.sameDirectories_of_kept kept).regions_of_ne ?_ live
    rintro rfl
    have frames : 0 < (totalMemory / pageSize).toNat := live
    rw [no_frames] at frames
    exact Nat.lt_irrefl 0 frames
  · obtain ⟨-, apart⟩ := A.apart_fresh allocated modest call null
    have kept : ∀ r : Region, r.Live s dirs →
        (r.extent s).SameOn s.mem (bitmapFilled totalMemory bitmap mem₁ s).mem := by
      intro r live
      have member := old r live
      exact (kept₁ _ member).trans (Extent.Apart.sameOn (apart _ member) frame)
    have made := A.stable_of_mem (A.fresh allocated modest call null) List.mem_cons_self frame
    refine ⟨sep.grow .bitmap small made old fun r live => ?_, kept⟩
    by_cases new : r = .bitmap
    · subst new
      exact Or.inr ⟨rfl, rfl⟩
    · exact Or.inl ((sep.sameDirectories_of_kept kept).regions_of_ne new live)

/-- The machine between the two steps of `paging_init` on the bitmap: every frame is marked, and
no page is mapped. -/
structure AllMarked (A : Allocator) (s : Machine) (dirs : List Word) (totalMemory : Word) :
    Prop where
  separated : Separated A s dirs
  total : s.totalFrames = totalMemory / pageSize
  marked : ∀ i < (totalMemory / pageSize).toNat, marks s i = true
  unmapped : ∀ dir ∈ dirs, ∀ virt, lookup s.mem dir virt = none

/-- Where there are no frames, no page is mapped. -/
theorem PagingInv.lookup_of_no_frames {A : Allocator} {s : Machine} {dirs : List Word}
    {m : Assignment Page} (inv : PagingInv A s dirs m) (none : s.totalFrames = 0) {dir : Word}
    (member : dir ∈ dirs) (virt : Word) : lookup s.mem dir virt = .none := by
  cases held : m.unitOf (dir, pageOf virt) with
  | none => exact inv.lookup_of_not_held member held
  | some i =>
      have lt := (inv.owned.held _ i held).2.1
      rw [inv.refines.total, none] at lt
      exact absurd lt (Nat.not_lt_zero i)

/-- **Filling the bitmap marks every frame.** -/
theorem PagingInv.bitmapFilled_spec {A : Allocator} {s : Machine} {dirs : List Word}
    {m : Assignment Page} (inv : PagingInv A s dirs m) (first : s.totalFrames = 0)
    {totalMemory bitmap : Word} {mem₁ : Mem} (nonnull : BitmapNonNull A totalMemory s)
    (call : A.alloc (bitmapSize (totalMemory / pageSize)) s.mem = some (bitmap, mem₁)) :
    AllMarked A (bitmapFilled totalMemory bitmap mem₁ s) dirs totalMemory ∧
      surplus (bitmapFilled totalMemory bitmap mem₁ s) = totalMemory / pageSize - s.usedFrames ∧
      SameDirectories dirs s.mem (bitmapFilled totalMemory bitmap mem₁ s).mem := by
  obtain ⟨sep₁, kept₁⟩ := inv.separated.addBitmap nonnull call
  have marked : ∀ i < (totalMemory / pageSize).toNat,
      marks (bitmapFilled totalMemory bitmap mem₁ s) i = true := fun i lt =>
    marks_bitmapFilled (sep₁.fits (r := .bitmap) (Nat.lt_of_le_of_lt (Nat.zero_le i) lt)) lt
  refine ⟨⟨sep₁, rfl, marked, fun dir member virt => ?_⟩, ?_,
    inv.separated.sameDirectories_of_kept kept₁⟩
  · rw [inv.separated.lookup_of_kept kept₁ member virt]
    exact inv.lookup_of_no_frames first member virt
  · exact surplus_of_full marked

/-- The marks after the loop that releases the frames from 256 on. -/
theorem AllMarked.marks_freed {A : Allocator} {s : Machine} {dirs : List Word}
    {totalMemory : Word} (all : AllMarked A s dirs totalMemory) {i : ℕ}
    (lt : i < (totalMemory / pageSize).toNat) :
    marks (freeFramesLoop ((totalMemory / pageSize).toNat - 256) (BitVec.ofNat 32 256) s) i =
      decide (i < 256) := by
  have small := totalFrames_lt totalMemory
  rw [marks_freeFramesLoop _ (by omega) (by omega), all.marked i lt, Bool.true_and]
  by_cases low : i < 256
  · rw [decide_eq_true low, decide_eq_false (by omega)]
    rfl
  · rw [decide_eq_false low, decide_eq_true (by omega)]
    rfl

/-- **Releasing the frames from 256 on leaves a fresh pool.** -/
theorem AllMarked.freed_spec {A : Allocator} {s : Machine} {dirs : List Word}
    {totalMemory : Word} (all : AllMarked A s dirs totalMemory) {s' : Machine}
    (freed : s' = freeFramesLoop ((totalMemory / pageSize).toNat - 256) (BitVec.ofNat 32 256) s) :
    PagingInv A s' dirs (freshPool totalMemory) ∧ s'.totalFrames = totalMemory / pageSize ∧
      surplus s' = surplus s ∧ SameDirectories dirs s.mem s'.mem := by
  obtain ⟨bitmap, total, -⟩ := freeFramesLoop_fields
    ((totalMemory / pageSize).toNat - 256) (BitVec.ofNat 32 256) s
  rw [← freed] at bitmap total
  have kept : Separated A s' dirs ∧ SameDirectories dirs s.mem s'.mem ∧
      (∀ dir ∈ dirs, ∀ virt, lookup s'.mem dir virt = lookup s.mem dir virt) ∧
      surplus s' = surplus s := by
    by_cases few : (totalMemory / pageSize).toNat ≤ 256
    · -- no frame is released
      rw [Nat.sub_eq_zero_of_le few, freeFramesLoop] at freed
      subst freed
      exact ⟨all.separated, fun _ _ => ⟨rfl, fun _ _ => ⟨rfl, rfl⟩⟩, fun _ _ _ => rfl, rfl⟩
    · have some_frames : 0 < s.totalFrames.toNat := by
        rw [all.total]
        omega
      have range : 256 + ((totalMemory / pageSize).toNat - 256) ≤ s.totalFrames.toNat := by
        rw [all.total]
        omega
      have outside : ∀ x, ¬ Covers (bitmapExtent s).addr (bitmapExtent s).length x →
          s'.mem x = s.mem x := by
        intro x away
        rw [freed]
        exact freeFramesLoop_apply _ (all.separated.fits (r := .bitmap) some_frames)
          all.separated.small range away
      obtain ⟨sep, same, lookup_eq⟩ :=
        all.separated.storeBitmap s' some_frames bitmap total outside
      refine ⟨sep, same, lookup_eq, ?_⟩
      rw [freed]
      exact surplus_freeFramesLoop _ range fun j lt _ =>
        all.marked j (by rw [← all.total]; exact lt)
  obtain ⟨sep, same, lookup_eq, counted⟩ := kept
  have total' := total.trans all.total
  refine ⟨⟨sep, ⟨by rw [total']; rfl, fun i lt => ?_, fun dir member virt => ?_,
    fun _ _ _ => rfl⟩, owned_freshPool totalMemory⟩, total', counted, same⟩
  · rw [total'] at lt
    rw [freed]
    exact (all.marks_freed lt).symm
  · rw [lookup_eq dir member virt]
    exact all.unmapped dir member virt

/-- **`paging_init` up to the directory sets up a fresh pool.** What the counter reports is over
the number of clear marks by the whole number of frames, less what the counter held before. -/
theorem PagingInv.initFrames_spec {A : Allocator} {s : Machine} {dirs : List Word}
    {m : Assignment Page} (inv : PagingInv A s dirs m) (first : s.totalFrames = 0)
    {totalMemory : Word} {s' : Machine} (nonnull : BitmapNonNull A totalMemory s)
    (call : initFrames A.alloc totalMemory s = .ok s') :
    PagingInv A s' dirs (freshPool totalMemory) ∧ s'.totalFrames = totalMemory / pageSize ∧
      surplus s' = totalMemory / pageSize - s.usedFrames ∧
      SameDirectories dirs s.mem s'.mem := by
  obtain ⟨bitmap, mem₁, answer, freed⟩ := initFrames_eq_ok.mp call
  obtain ⟨all, counted, same⟩ := inv.bitmapFilled_spec first nonnull answer
  obtain ⟨inv', total, counted', same'⟩ := all.freed_spec freed
  exact ⟨inv', total, counted'.trans counted, same.trans same'⟩

end CocosOS.Kernel.Memory
