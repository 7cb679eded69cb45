import CocosOS.Kernel.Memory.PagingRuns

/-!
# The permissions of a page

On the x86 a page is writable, and open to user code, only as far as both its directory entry and
its table entry say so. `paging_map_page` writes the directory entry when it makes the table, with
the flags of the first page of its region, and the table entry when the page is absent. So an
earlier call for a neighbour, or for the page itself, may keep a later one from giving what it is
asked for.

The call gives exactly the permissions of its flags if and only if the table is new, or the page is
absent and the directory entry allows them already, or the page has them already
(`permissions_granted_iff`). It never changes the permissions of another page.
-/

set_option autoImplicit false

namespace CocosOS.Kernel.Memory

open Library.ByteMemory Library.SharedPool Library.WordArithmetic

/-! ## Permissions -/

/-- What a mapping allows. -/
structure Permissions where
  writable : Bool
  user : Bool
  deriving DecidableEq, Repr

namespace Permissions

/-- The bits `PAGE_WRITE` and `PAGE_USER` of an entry, or of the flags of a call. -/
def ofBits (bits : Word) : Permissions := ⟨bits &&& pageWrite ≠ 0, bits &&& pageUser ≠ 0⟩

/-- What both allow. -/
def inter (p q : Permissions) : Permissions := ⟨p.writable && q.writable, p.user && q.user⟩

/-- The second allows whatever the first does. -/
instance : LE Permissions :=
  ⟨fun p q => (p.writable = true → q.writable = true) ∧ (p.user = true → q.user = true)⟩

theorem inter_eq_right_iff {p q : Permissions} : p.inter q = q ↔ q ≤ p := by
  obtain ⟨w, u⟩ := p
  obtain ⟨w', u'⟩ := q
  rw [inter, mk.injEq, Bool.and_eq_right_iff_imp, Bool.and_eq_right_iff_imp]
  exact Iff.rfl

theorem inter_le_left (p q : Permissions) : p.inter q ≤ p :=
  ⟨fun both => (Bool.and_eq_true _ _ ▸ both).1, fun both => (Bool.and_eq_true _ _ ▸ both).1⟩

theorem decide_and_twoPow_ne_zero (bits : Word) {k : ℕ} (small : k < 32) :
    decide (bits &&& (1#32 <<< k) ≠ 0#32) = bits.getLsbD k := by
  rw [Bool.eq_iff_iff, decide_eq_true_eq]
  exact and_twoPow_ne_zero_iff bits small

theorem ofBits_eq (bits : Word) : ofBits bits = ⟨bits.getLsbD 1, bits.getLsbD 2⟩ :=
  congrArg₂ mk (decide_and_twoPow_ne_zero bits (by decide : 1 < 32))
    (decide_and_twoPow_ne_zero bits (by decide : 2 < 32))

/-- A directory entry that is made for a page allows what the page is asked for. -/
theorem ofBits_le_entered (table flags : Word) :
    ofBits flags ≤ ofBits (table ||| flags ||| pagePresent) := by
  have kept : ∀ k, flags.getLsbD k = true →
      (table ||| flags ||| pagePresent).getLsbD k = true := by
    intro k set
    rw [BitVec.getLsbD_or, BitVec.getLsbD_or, set, Bool.or_true, Bool.true_or]
  rw [ofBits_eq, ofBits_eq]
  exact ⟨kept 1, kept 2⟩

/-- A table entry that is filled in allows what the call asks for. -/
theorem ofBits_mappedEntry (frame flags entry : Word) :
    ofBits (mappedEntry frame flags entry) = ofBits flags := by
  rw [ofBits_eq, ofBits, mk.injEq, mappedEntry]
  refine ⟨?_, PageTableEntry.getLsbD_setFlag_self (by decide) (by decide)⟩
  rw [PageTableEntry.getLsbD_setFlag (by decide) (by decide)]
  exact PageTableEntry.getLsbD_setFlag_self (by decide) (by decide)

end Permissions

/-- The directory entry of a page. -/
def directoryEntry (mem : Mem) (dir virt : Word) : Word :=
  PageDirectory.entry mem dir (pdIndex virt)

/-- The table entry of a page, if there is a table. -/
def tableEntry (mem : Mem) (dir virt : Word) : Word :=
  PageTable.entry mem (PageDirectory.table mem dir (pdIndex virt)) (ptIndex virt)

/-- What the two entries of a page allow. -/
def permissions (mem : Mem) (dir virt : Word) : Permissions :=
  (Permissions.ofBits (directoryEntry mem dir virt)).inter
    (Permissions.ofBits (tableEntry mem dir virt))

/-! ## What a call does to the entries -/

/-- The page goes through the same entries in both memories. -/
structure SameEntries (mem mem' : Mem) (dir virt : Word) : Prop where
  directory : directoryEntry mem' dir virt = directoryEntry mem dir virt
  table : tableEntry mem' dir virt = tableEntry mem dir virt

theorem SameEntries.refl (mem : Mem) (dir virt : Word) : SameEntries mem mem dir virt :=
  ⟨rfl, rfl⟩

theorem SameEntries.trans {mem mem' mem'' : Mem} {dir virt : Word}
    (first : SameEntries mem mem' dir virt) (second : SameEntries mem' mem'' dir virt) :
    SameEntries mem mem'' dir virt :=
  ⟨second.directory.trans first.directory, second.table.trans first.table⟩

theorem SameEntries.permissions {mem mem' : Mem} {dir virt : Word}
    (same : SameEntries mem mem' dir virt) :
    permissions mem' dir virt = permissions mem dir virt := by
  rw [Memory.permissions, Memory.permissions, same.directory, same.table]

theorem SameEntries.present {mem mem' : Mem} {dir virt : Word}
    (same : SameEntries mem mem' dir virt) :
    PageDirectory.present mem' dir (pdIndex virt) =
      PageDirectory.present mem dir (pdIndex virt) :=
  congrArg PageTableEntry.present same.directory

/-- Apart from one page, every page with a table goes through the same entries. -/
def OtherEntries (dirs : List Word) (dir virt : Word) (mem mem' : Mem) : Prop :=
  ∀ dir' ∈ dirs, ∀ virt', (dir' = dir → pageOf virt' ≠ pageOf virt) →
    PageDirectory.present mem dir' (pdIndex virt') = true → SameEntries mem mem' dir' virt'

theorem OtherEntries.trans {dirs : List Word} {dir virt : Word} {mem mem' mem'' : Mem}
    (first : OtherEntries dirs dir virt mem mem') (second : OtherEntries dirs dir virt mem' mem'') :
    OtherEntries dirs dir virt mem mem'' := by
  intro dir' member virt' other here
  have same := first dir' member virt' other here
  exact same.trans (second dir' member virt' other (same.present.trans here))

namespace Separated

variable {A : Allocator} {s s' : Machine} {dirs : List Word} (sep : Separated A s dirs)
include sep

/-- The entries of a page depend only on the bytes of its directory and of its table. -/
theorem sameEntries {dir virt : Word} {mem' : Mem} (member : dir ∈ dirs)
    (here : PageDirectory.present s.mem dir (pdIndex virt) = true)
    (directory : ((Region.directory dir).extent s).SameOn s.mem mem')
    (table : ((Region.table dir (pdIndex virt)).extent s).SameOn s.mem mem') :
    SameEntries s.mem mem' dir virt := by
  have fields := (PageDirectory.fields_congr (sep.fits_directory member) directory).2 _
    (pdIndex_lt virt)
  have live : (Region.table dir (pdIndex virt)).Live s dirs := ⟨member, pdIndex_lt virt, here⟩
  refine ⟨fields.1, ?_⟩
  rw [tableEntry, tableEntry, fields.2]
  exact PageTable.entry_congr (sep.fits_table live) (ptIndex_lt virt) table

/-- Marking a frame keeps the regions and the directories. -/
theorem takeFrame {frame : Word} (lt : frame.toNat < s.totalFrames.toNat) :
    Separated A (Memory.takeFrame frame s) dirs ∧
      SameDirectories dirs s.mem (Memory.takeFrame frame s).mem := by
  have live : Region.bitmap.Live s dirs := Nat.lt_of_le_of_lt (Nat.zero_le _) lt
  obtain ⟨kept, same, -⟩ := sep.storeBitmap (Memory.takeFrame frame s) live rfl rfl
    fun x outside => takeFrame_apply (sep.fits live) sep.small lt outside
  exact ⟨kept, same⟩

/-- Marking a frame leaves every entry alone. -/
theorem sameEntries_takeFrame {frame : Word} (lt : frame.toNat < s.totalFrames.toNat)
    {dir virt : Word} (member : dir ∈ dirs)
    (here : PageDirectory.present s.mem dir (pdIndex virt) = true) :
    SameEntries s.mem (Memory.takeFrame frame s).mem dir virt := by
  have live : Region.bitmap.Live s dirs := Nat.lt_of_le_of_lt (Nat.zero_le _) lt
  have through : (Region.table dir (pdIndex virt)).Live s dirs := ⟨member, pdIndex_lt virt, here⟩
  have bytes : ∀ x, ¬ Covers (Region.bitmap.extent s).addr (Region.bitmap.extent s).length x →
      (Memory.takeFrame frame s).mem x = s.mem x :=
    fun x outside => takeFrame_apply (sep.fits live) sep.small lt outside
  have directory : (Region.directory dir).Live s dirs := member
  exact sep.sameEntries member here (sep.sameOn live directory (by rintro ⟨⟩) bytes)
    (sep.sameOn live through (by rintro ⟨⟩) bytes)

/-- A store to the table entry of a page leaves the entries of the others alone. -/
theorem otherEntries_setEntry {dir virt value : Word} (member : dir ∈ dirs)
    (here : PageDirectory.present s.mem dir (pdIndex virt) = true) :
    OtherEntries dirs dir virt s.mem (PageTable.setEntry
      (PageDirectory.table s.mem dir (pdIndex virt)) (ptIndex virt) value s.mem) := by
  intro dir' member' virt' other here'
  have live : (Region.table dir (pdIndex virt)).Live s dirs := ⟨member, pdIndex_lt virt, here⟩
  have live' : (Region.table dir' (pdIndex virt')).Live s dirs := ⟨member', pdIndex_lt virt', here'⟩
  have fits := sep.fits_table live
  have bytes : ∀ x, ¬ Covers (PageDirectory.table s.mem dir (pdIndex virt)) 4096 x →
      PageTable.setEntry (PageDirectory.table s.mem dir (pdIndex virt)) (ptIndex virt) value
        s.mem x = s.mem x :=
    fun x outside => PageTable.setEntry_apply fits (ptIndex_lt virt) outside
  have directory : ((Region.directory dir').extent s).SameOn s.mem (PageTable.setEntry
      (PageDirectory.table s.mem dir (pdIndex virt)) (ptIndex virt) value s.mem) :=
    (sep.apart _ (.directory dir') live member' (by rintro ⟨⟩)).sameOn bytes
  by_cases through : dir' = dir ∧ pdIndex virt' = pdIndex virt
  · obtain ⟨rfl, index⟩ := through
    have entry : ptIndex virt' ≠ ptIndex virt :=
      fun same => other rfl (pageOf_eq_iff.mpr ⟨index, same⟩)
    have fields := (PageDirectory.fields_congr (sep.fits_directory member') directory).2 _
      (pdIndex_lt virt')
    refine ⟨fields.1, ?_⟩
    rw [tableEntry, tableEntry, fields.2, index]
    exact PageTable.entry_setEntry_of_ne fits (ptIndex_lt virt) (ptIndex_lt virt') entry
  · have apart : Region.table dir (pdIndex virt) ≠ .table dir' (pdIndex virt') := by
      intro eq
      injection eq with sameDir sameIndex
      exact through ⟨sameDir.symm, sameIndex.symm⟩
    exact sep.sameEntries member' here' directory
      ((sep.apart _ _ live live' apart).sameOn bytes)

end Separated

/-- A new table leaves the entries of every page with a table alone. -/
theorem TableAdded.sameEntries {A : Allocator} {s : Machine} {dirs : List Word}
    {dir index value table : Word} {mem' : Mem}
    (added : TableAdded s dirs dir index value table mem') (sep : Separated A s dirs)
    (absent : PageDirectory.present s.mem dir index = false) {dir' virt' : Word}
    (member : dir' ∈ dirs) (here : PageDirectory.present s.mem dir' (pdIndex virt') = true) :
    SameEntries s.mem mem' dir' virt' := by
  have live : (Region.table dir' (pdIndex virt')).Live s dirs := ⟨member, pdIndex_lt virt', here⟩
  have tables := added.others (.table dir' (pdIndex virt')) live (by rintro ⟨⟩)
  by_cases same : dir' = dir
  · subst same
    have other : pdIndex virt' ≠ index := by
      rintro rfl
      rw [here] at absent
      contradiction
    obtain ⟨entry, table'⟩ := added.rest _ (pdIndex_lt virt') other
    refine ⟨entry, ?_⟩
    rw [tableEntry, tableEntry, table']
    exact PageTable.entry_congr (sep.fits_table live) (ptIndex_lt virt') tables
  · have distinct : Region.directory dir' ≠ .directory dir := by
      rintro ⟨⟩
      exact same rfl
    exact sep.sameEntries member here (added.others (.directory dir') member distinct) tables

/-! ## The call -/

/-- The conditions under which `paging_map_page` can give a page what it is asked for: the table is
new, or the page is absent and its directory entry allows as much, or the page has it already. -/
def Grantable (dir virt flags : Word) (s : Machine) : Prop :=
  PageDirectory.present s.mem dir (pdIndex virt) = false ∨
  (pagingIsPagePresent dir virt s = false ∧
    Permissions.ofBits flags ≤ Permissions.ofBits (directoryEntry s.mem dir virt)) ∨
  (pagingIsPagePresent dir virt s = true ∧
    permissions s.mem dir virt = Permissions.ofBits flags)

theorem pagingIsPagePresent_of_present {dir virt : Word} {s : Machine}
    (here : PageDirectory.present s.mem dir (pdIndex virt) = true) :
    pagingIsPagePresent dir virt s = PageTableEntry.present (tableEntry s.mem dir virt) := by
  rw [pagingIsPagePresent, if_pos here]
  rfl

namespace PagingInv

variable {A : Allocator} {s s' : Machine} {dirs : List Word} {m : Assignment Page}
  (inv : PagingInv A s dirs m) {dir virt flags : Word} (member : dir ∈ dirs)
include inv member

/-- A new table is empty, and its directory entry allows what the page is asked for. -/
theorem ensureTable_entries (nonnull : TableNonNull A dir virt s)
    (call : ensureTable A.alloc dir virt flags s = .ok s') :
    OtherEntries dirs dir virt s.mem s'.mem ∧
    (PageDirectory.present s.mem dir (pdIndex virt) = true → s' = s) ∧
    (PageDirectory.present s.mem dir (pdIndex virt) = false →
      PageTableEntry.present (tableEntry s'.mem dir virt) = false ∧
      Permissions.ofBits flags ≤ Permissions.ofBits (directoryEntry s'.mem dir virt)) := by
  rcases ensureTable_eq_ok.mp call with ⟨here, rfl⟩ | ⟨absent, table, mem₁, answer, rfl⟩
  · refine ⟨fun dir' _ virt' _ _ => .refl _ dir' virt', fun _ => rfl, fun absent => ?_⟩
    rw [here] at absent
    contradiction
  · obtain ⟨-, added⟩ := inv.separated.addTable member (pdIndex_lt virt) answer
      (nonnull absent _ _ answer) rfl
    refine ⟨fun dir' member' virt' _ here => added.sameEntries inv.separated absent member' here,
      fun here => ?_, fun _ => ⟨?_, ?_⟩⟩
    · rw [here] at absent
      contradiction
    · rw [tableEntry, added.table_eq, added.cleared _ (ptIndex_lt virt)]
      rfl
    · rw [directoryEntry, added.entry_eq]
      exact Permissions.ofBits_le_entered table flags

/-- A table entry that is absent is filled in with the flags; no other entry changes. -/
theorem ensureFrame_entries (here : PageDirectory.present s.mem dir (pdIndex virt) = true)
    (call : ensureFrame dir virt flags s = .ok s') :
    OtherEntries dirs dir virt s.mem s'.mem ∧
    directoryEntry s'.mem dir virt = directoryEntry s.mem dir virt ∧
    Permissions.ofBits (tableEntry s'.mem dir virt) =
      if PageTableEntry.present (tableEntry s.mem dir virt) then
        Permissions.ofBits (tableEntry s.mem dir virt)
      else Permissions.ofBits flags := by
  rw [ensureFrame] at call
  dsimp only at call
  rw [← tableEntry] at call
  cases present : PageTableEntry.present (tableEntry s.mem dir virt) with
  | true =>
      rw [if_pos present] at call
      obtain rfl := Except.ok.inj call
      exact ⟨fun dir' _ virt' _ _ => .refl _ dir' virt', rfl, rfl⟩
  | false =>
      rw [present, if_neg (by decide)] at call
      obtain ⟨⟨frame, s₁⟩, taken, last⟩ := bind_eq_ok.mp call
      obtain ⟨lt, rfl⟩ := pagingAllocateFrame_ok taken
      obtain rfl := Except.ok.inj last
      -- the frame is marked first, and then the entry is stored
      have marked : OtherEntries dirs dir virt s.mem (takeFrame frame s).mem :=
        fun dir' member' virt' _ here' => inv.separated.sameEntries_takeFrame lt member' here'
      obtain ⟨sep₁, same₁⟩ := inv.separated.takeFrame lt
      have here₁ := (same₁.present member (pdIndex_lt virt)).trans here
      obtain ⟨entry₁, table₁⟩ := (same₁ dir member).2 _ (pdIndex_lt virt)
      rw [← table₁]
      generalize value : mappedEntry frame flags _ = entry
      obtain ⟨-, same₂, -⟩ := sep₁.storeEntry { takeFrame frame s with
        mem := PageTable.setEntry (PageDirectory.table (takeFrame frame s).mem dir (pdIndex virt))
          (ptIndex virt) entry (takeFrame frame s).mem } member here₁ rfl rfl rfl
      obtain ⟨entry₂, table₂⟩ := (same₂ dir member).2 _ (pdIndex_lt virt)
      refine ⟨marked.trans (sep₁.otherEntries_setEntry member here₁), entry₂.trans entry₁, ?_⟩
      dsimp only at table₂
      rw [tableEntry, table₂, PageTable.entry_setEntry_self, ← value, if_neg (by decide)]
      exact Permissions.ofBits_mappedEntry frame flags _

/-- **The call gives what it is asked for exactly if it can**, and leaves the entries of every
other page alone. -/
theorem pagingMapPage_permissions (nonnull : TableNonNull A dir virt s) {answer : Word}
    (call : pagingMapPage A.alloc dir virt flags s = .ok (answer, s')) :
    OtherEntries dirs dir virt s.mem s'.mem ∧
    (permissions s'.mem dir virt = Permissions.ofBits flags ↔ Grantable dir virt flags s) := by
  obtain ⟨s₁, tables, rest⟩ := bind_eq_ok.mp call
  obtain ⟨s₂, frames, last⟩ := bind_eq_ok.mp rest
  obtain ⟨-, rfl⟩ := Prod.mk.inj (Except.ok.inj last)
  have step := inv.ensureTable_spec member nonnull flags
  rw [tables] at step
  obtain ⟨inv₁, -, here₁⟩ := step
  obtain ⟨others, old, new⟩ := inv.ensureTable_entries member nonnull tables
  obtain ⟨others', directory, table⟩ := inv₁.ensureFrame_entries member here₁ frames
  refine ⟨others.trans others', ?_⟩
  rw [permissions, directory, table]
  cases here : PageDirectory.present s.mem dir (pdIndex virt) with
  | false =>
      obtain ⟨empty, allowed⟩ := new here
      rw [empty, if_neg (by decide)]
      exact iff_of_true (Permissions.inter_eq_right_iff.mpr allowed) (Or.inl here)
  | true =>
      obtain rfl := old here
      rw [Grantable, here, pagingIsPagePresent_of_present here]
      cases present : PageTableEntry.present (tableEntry s₁.mem dir virt) with
      | false =>
          rw [if_neg (by decide), Permissions.inter_eq_right_iff]
          simp
      | true =>
          rw [if_pos rfl, ← permissions]
          simp

end PagingInv

/-- What is asked of a call: the page has the permissions of the flags after it, and every other
page that was mapped has those it had before. -/
def Grants (dirs : List Word) (dir virt flags : Word) (s s' : Machine) : Prop :=
  permissions s'.mem dir virt = Permissions.ofBits flags ∧
  ∀ dir' ∈ dirs, ∀ virt', (dir' = dir → pageOf virt' ≠ pageOf virt) →
    pagingIsPagePresent dir' virt' s = true →
    permissions s'.mem dir' virt' = permissions s.mem dir' virt'

theorem present_of_pagingIsPagePresent {dir virt : Word} {s : Machine}
    (mapped : pagingIsPagePresent dir virt s = true) :
    PageDirectory.present s.mem dir (pdIndex virt) = true := by
  rw [pagingIsPagePresent] at mapped
  split at mapped
  · assumption
  · contradiction

/-! ## The pages of `paging_init` -/

/-- What a page goes through depends on its number only. -/
theorem permissions_congr {virt virt' : Word} (page : pageOf virt' = pageOf virt) (mem : Mem)
    (dir : Word) : permissions mem dir virt' = permissions mem dir virt := by
  obtain ⟨directory, table⟩ := pageOf_eq_iff.mp page
  rw [permissions, permissions, directoryEntry, directoryEntry, tableEntry, tableEntry, directory,
    table]

theorem pagingIsPagePresent_eq_isSome {A : Allocator} {s : Machine} {dirs : List Word}
    {m : Assignment Page} (inv : PagingInv A s dirs m) {dir : Word} (member : dir ∈ dirs)
    (virt : Word) : pagingIsPagePresent dir virt s = (m.unitOf (dir, pageOf virt)).isSome := by
  rw [pagingIsPagePresent_eq, inv.refines.mapped dir member, Option.isSome_map]

/-- What `paging_init` asks for its pages. -/
def initFlags : Word := pagePresent ||| pageWrite

/-- The first pages of the kernel directory have what `paging_init` asks for, and the directory
entry that they share allows it once there is one. -/
structure InitGranted (k : ℕ) (s : Machine) : Prop where
  allowed : PageDirectory.present s.mem s.kernelDirectory 0 = true → Permissions.ofBits initFlags ≤
    Permissions.ofBits (PageDirectory.entry s.mem s.kernelDirectory 0)
  pages : ∀ virt, (pageOf virt).toNat < k →
    permissions s.mem s.kernelDirectory virt = Permissions.ofBits initFlags

/-- A round of the loop gives one more page what it asks for. -/
theorem InitGranted.step {A : Allocator} {totalMemory : Word} {k : ℕ} {s s' : Machine}
    (granted : InitGranted k s) (small : k < 1024)
    (inv : PagingInv A s [s.kernelDirectory] (mappedPool totalMemory s.kernelDirectory k))
    (nonnull : TableNonNull A s.kernelDirectory 0 s) {answer : Word}
    (call : pagingMapPage A.alloc s.kernelDirectory (BitVec.ofNat 32 (4096 * k)) initFlags s =
      .ok (answer, s')) (kept : s'.kernelDirectory = s.kernelDirectory) :
    InitGranted (k + 1) s' := by
  have page := pageOf_ofNat k
  have index := pdIndex_ofNat small
  have number : (BitVec.ofNat 20 k).toNat = k := by
    rw [BitVec.toNat_ofNat]
    omega
  have mapped : ∀ virt, pagingIsPagePresent s.kernelDirectory virt s =
      decide ((pageOf virt).toNat < k) := by
    intro virt
    rw [pagingIsPagePresent_eq_isSome inv List.mem_cons_self, mappedPool]
    dsimp only
    by_cases below : (pageOf virt).toNat < k
    · rw [decide_eq_true below, if_pos ⟨rfl, below⟩]
      rfl
    · rw [decide_eq_false below, if_neg fun both => below both.2]
      rfl
  obtain ⟨others, granted_iff⟩ := inv.pagingMapPage_permissions List.mem_cons_self
    (nonnull.of_firstTable small) call
  -- the page is absent, and what it is asked for is allowed
  have here : permissions s'.mem s.kernelDirectory (BitVec.ofNat 32 (4096 * k)) =
      Permissions.ofBits initFlags := by
    refine granted_iff.mpr ?_
    rw [Grantable, directoryEntry, index, mapped, page, number,
      decide_eq_false (Nat.lt_irrefl k)]
    cases table : PageDirectory.present s.mem s.kernelDirectory 0 with
    | false => exact Or.inl rfl
    | true => exact Or.inr (Or.inl ⟨rfl, granted.allowed table⟩)
  refine ⟨fun _ => ?_, fun virt below => ?_⟩
  · have allows := Permissions.inter_le_left
      (.ofBits (directoryEntry s'.mem s.kernelDirectory (BitVec.ofNat 32 (4096 * k))))
      (.ofBits (tableEntry s'.mem s.kernelDirectory (BitVec.ofNat 32 (4096 * k))))
    rw [← permissions, here, directoryEntry, index] at allows
    rw [kept]
    exact allows
  · rw [kept]
    by_cases last : (pageOf virt).toNat = k
    · have same : pageOf virt = pageOf (BitVec.ofNat 32 (4096 * k)) := by
        rw [page]
        exact BitVec.eq_of_toNat_eq (last.trans number.symm)
      rw [permissions_congr same, here]
    · have before : (pageOf virt).toNat < k := by omega
      have other : pageOf virt ≠ pageOf (BitVec.ofNat 32 (4096 * k)) := by
        intro same
        rw [same, page, number] at before
        exact Nat.lt_irrefl k before
      have there := present_of_pagingIsPagePresent ((mapped virt).trans (decide_eq_true before))
      rw [(others _ List.mem_cons_self virt (fun _ => other) there).permissions]
      exact granted.pages virt before

/-- The loop gives every page what it asks for. -/
theorem InitGranted.mapPagesLoop {A : Allocator} {totalMemory : Word} (rounds : ℕ) :
    ∀ {k : ℕ} {s s' : Machine}, InitGranted k s → k + rounds ≤ 1024 →
    PagingInv A s [s.kernelDirectory] (mappedPool totalMemory s.kernelDirectory k) →
    TableNonNull A s.kernelDirectory 0 s →
    mapPagesLoop A.alloc rounds (BitVec.ofNat 32 (4096 * k)) s = .ok s' →
    InitGranted (k + rounds) s' := by
  induction rounds with
  | zero =>
      intro k s s' granted _ _ _ call
      obtain rfl := Except.ok.inj call
      exact granted
  | succ rounds ih =>
      intro k s s' granted range inv nonnull call
      obtain ⟨⟨answer, s₁⟩, mapped, rest⟩ := bind_eq_ok.mp call
      have step := pagingMapPage_mappedPool (k := k) (by omega) inv nonnull
        (pagePresent ||| pageWrite)
      rw [mapped] at step
      obtain ⟨inv₁, present₁, kept, -⟩ := step
      have next := granted.step (by omega) inv nonnull mapped kept.kernelDirectory
      rw [show k + (rounds + 1) = k + 1 + rounds by omega]
      refine ih next (by omega) inv₁ (tableNonNull_of_present present₁) ?_
      rw [← ofNat_add_pageSize]
      exact rest

/-- The directory that `paging_init` creates is empty. -/
theorem initDirectory_empty {A : Allocator} {totalMemory : Word} {s s' : Machine}
    (boot : Booting A s) (nonnull : BootNonNull A totalMemory s)
    (call : initDirectory A.alloc totalMemory s = .ok s') {index : Word}
    (small : index.toNat < 1024) :
    PageDirectory.present s'.mem s'.kernelDirectory index = false := by
  obtain ⟨s₁, frames, rest⟩ := bind_eq_ok.mp call
  obtain ⟨⟨dir, s₂⟩, created, last⟩ := bind_eq_ok.mp rest
  obtain rfl := Except.ok.inj last
  obtain ⟨inv₁, -⟩ := boot.inv.initFrames_spec boot.totalFrames nonnull.bitmap frames
  obtain ⟨mem₁, answer, rfl⟩ := pagingCreateDirectory_eq_ok.mp created
  obtain ⟨-, -, -, -, empty⟩ := inv₁.separated.addDirectory answer
    (nonnull.directory s₁ frames dir _ created) rfl
  exact empty index small

/-- **The pages that `paging_init` maps are writable and closed to user code.** -/
theorem pagingInit_permissions {A : Allocator} {totalMemory : Word} {s s' : Machine}
    (boot : Booting A s) (nonnull : BootNonNull A totalMemory s)
    (call : pagingInit A.alloc totalMemory s = .ok s') {virt : Word}
    (first : virt.toNat < 0x400000) :
    permissions s'.mem s'.kernelDirectory virt = ⟨true, false⟩ := by
  rw [pagingInit_eq] at call
  obtain ⟨s₂, looped, last⟩ := bind_eq_ok.mp call
  obtain ⟨s₁, started, mapped⟩ := bind_eq_ok.mp looped
  obtain rfl := Except.ok.inj last
  obtain ⟨inv₁, table, -, -⟩ := initDirectory_spec boot nonnull started
  have fresh : InitGranted 0 s₁ := by
    refine ⟨fun there => ?_, fun _ below => absurd below (Nat.not_lt_zero _)⟩
    rw [initDirectory_empty boot nonnull started (by decide)] at there
    contradiction
  have page := toNat_pageOf virt
  exact (fresh.mapPagesLoop 1024 (by decide) inv₁ table mapped).pages virt (by omega)

/-! ## Calls for a page that is mapped -/

/-- A call for a page that is mapped does nothing. -/
theorem pagingMapPage_of_present (alloc : MemoryAlloc) {dir virt : Word} {s : Machine}
    (mapped : pagingIsPagePresent dir virt s = true) (flags : Word) :
    pagingMapPage alloc dir virt flags s = .ok (virt, s) := by
  have here := present_of_pagingIsPagePresent mapped
  rw [pagingIsPagePresent_of_present here, tableEntry] at mapped
  rw [pagingMapPage, ensureTable, if_pos here]
  show (ensureFrame dir virt flags s).bind _ = _
  rw [ensureFrame]
  dsimp only
  rw [if_pos mapped]
  rfl

/-- On the heap of the kernel there is a run after which the first page is mapped, writable and
closed to user code. -/
theorem exists_initialPage : ∃ s dir, PagingRun kernelHeap.strict 0x1000000 s [dir] [] ∧
    pagingIsPagePresent dir 0 s = true ∧ permissions s.mem dir 0 = ⟨true, false⟩ := by
  obtain ⟨s, boot⟩ := exists_kernelBoot
  have enough : 1280 ≤ ((0x1000000 : Word) / pageSize).toNat := by decide
  obtain ⟨s', call⟩ := pagingInit_kernel answersLikeHeap_strict boot enough
  have booting := boot.booting answersLikeHeap_strict
  have nonnull := bootNonNull_of_neverNull (Allocator.neverNull_strict kernelHeap) 0x1000000 s
  obtain ⟨inv, -⟩ := pagingInit_spec booting nonnull call
  refine ⟨s', s'.kernelDirectory, .init booting call, ?_,
    pagingInit_permissions booting nonnull call (by decide)⟩
  rw [pagingIsPagePresent_eq_isSome inv List.mem_cons_self,
    unitOf_mappedPool _ _ (by decide : (0 : Word).toNat < 0x400000)]
  rfl

/-! ## What is asked for and what is given -/

/-- **Mappings carry the permissions asked for exactly where they can.** In every state of every
run, a call of `paging_map_page` that returns gives the page the permissions of its flags and
changes those of no other page, if and only if the table is new, or the page is absent and its
directory entry allows as much already, or the page has these permissions already. -/
theorem permissions_granted_iff (A : Allocator) (never : A.NeverNull) {totalMemory : Word}
    {s : Machine} {dirs : List Word} {events : List (Event Page)}
    (run : PagingRun A totalMemory s dirs events) {dir : Word} (member : dir ∈ dirs)
    {virt flags answer : Word} {s' : Machine}
    (call : pagingMapPage A.alloc dir virt flags s = .ok (answer, s')) :
    Grants dirs dir virt flags s s' ↔ Grantable dir virt flags s := by
  obtain ⟨-, -, -, m, -, inv⟩ := run.inv never
  obtain ⟨others, granted⟩ := inv.pagingMapPage_permissions member
    (tableNonNull_of_neverNull never dir virt s) call
  rw [Grants, granted]
  refine and_iff_left_of_imp fun _ dir' member' virt' other mapped => ?_
  exact (others dir' member' virt' other (present_of_pagingIsPagePresent mapped)).permissions

/-- A mapped page that is asked for with the permissions that it has. -/
theorem permissions_granted_again : ∃ s dirs dir s', dir ∈ dirs ∧
    pagingMapPage kernelHeap.strict.alloc dir 0 (pagePresent ||| pageWrite) s = .ok (0, s') ∧
    Grants dirs dir 0 (pagePresent ||| pageWrite) s s' := by
  obtain ⟨s, dir, run, mapped, given⟩ := exists_initialPage
  have call := pagingMapPage_of_present kernelHeap.strict.alloc mapped
    (pagePresent ||| pageWrite)
  exact ⟨s, [dir], dir, s, List.mem_cons_self, call,
    (permissions_granted_iff kernelHeap.strict (Allocator.neverNull_strict _) run
      List.mem_cons_self call).mpr (Or.inr (Or.inr ⟨mapped, given⟩))⟩

/-- The first page of the kernel directory stays closed to user code when it is mapped for it. -/
theorem mapped_page_keeps_permissions :
    ¬ ∀ (A : Allocator) (totalMemory : Word) (s : Machine) (dirs : List Word)
      (events : List (Event Page)), A.NeverNull → PagingRun A totalMemory s dirs events →
      ∀ dir ∈ dirs, ∀ virt flags answer s',
        flags &&& ~~~(pagePresent ||| pageWrite ||| pageUser) = 0 →
        pagingMapPage A.alloc dir virt flags s = .ok (answer, s') →
        Grants dirs dir virt flags s s' := by
  intro always
  obtain ⟨s, dir, run, mapped, given⟩ := exists_initialPage
  have call := pagingMapPage_of_present kernelHeap.strict.alloc mapped
    (pagePresent ||| pageUser)
  have grants := (always _ _ s [dir] [] (Allocator.neverNull_strict kernelHeap) run dir
    List.mem_cons_self 0 _ 0 s (by decide) call).1
  rw [given] at grants
  exact absurd grants (by decide)

end CocosOS.Kernel.Memory
