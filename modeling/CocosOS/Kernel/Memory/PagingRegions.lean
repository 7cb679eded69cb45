import CocosOS.Kernel.Memory.FrameBitmap
import CocosOS.Kernel.Memory.PageTables

/-!
# The regions of paging

The paging code owns the bitmap, the directories it has created, and the tables they point to.
`Separated` says that these regions are blocks of the allocator and that no two of them overlap,
so a store to one leaves the others alone.

There are three kinds of stores. A new table is entered in a directory, and no walk sees it
(`Separated.addTable`, `TableAdded.lookup_eq`). A store to the bitmap changes no walk
(`Separated.storeBitmap`). A store to an entry changes the walk of one page of one directory and
no mark (`Separated.storeEntry`).
-/

set_option autoImplicit false

namespace CocosOS.Kernel.Memory

open Library.ByteMemory

/-! ## Regions -/

/-- A part of memory that the paging code owns. -/
inductive Region where
  | bitmap
  | directory (dir : Word)
  | table (dir index : Word)

namespace Region

/-- The bytes of a region. -/
def extent (s : Machine) : Region → Extent
  | bitmap => bitmapExtent s
  | directory dir => ⟨dir, 8196⟩
  | table dir index => ⟨PageDirectory.table s.mem dir index, 4096⟩

/-- The region is in use: the bitmap once there are frames, the directories of the list, and a
table for every entry that has the present bit. -/
def Live (s : Machine) (dirs : List Word) : Region → Prop
  | bitmap => 0 < s.totalFrames.toNat
  | directory dir => dir ∈ dirs
  | table dir index =>
    dir ∈ dirs ∧ index.toNat < 1024 ∧ PageDirectory.present s.mem dir index = true

end Region

/-- A table is where it was when its entry in the directory is the same. -/
theorem Region.table_congr {s s' : Machine} {dirs dirs' : List Word} {dir index : Word}
    (member : dir ∈ dirs)
    (fields : PageDirectory.entry s'.mem dir index = PageDirectory.entry s.mem dir index ∧
      PageDirectory.table s'.mem dir index = PageDirectory.table s.mem dir index)
    (live : (Region.table dir index).Live s' dirs') :
    (Region.table dir index).Live s dirs ∧
      (Region.table dir index).extent s' = (Region.table dir index).extent s := by
  obtain ⟨entry, table⟩ := fields
  obtain ⟨-, small, present⟩ := live
  rw [PageDirectory.present_eq, entry, ← PageDirectory.present_eq] at present
  refine ⟨⟨member, small, present⟩, ?_⟩
  rw [Region.extent, Region.extent, table]

/-- The regions in use are blocks of the allocator, apart from each other. -/
structure Separated (A : Allocator) (s : Machine) (dirs : List Word) : Prop where
  small : s.totalFrames.toNat < 2 ^ 20
  allocated : ∃ blocks, A.Allocated blocks s.mem ∧
    ∀ r : Region, r.Live s dirs → r.extent s ∈ blocks
  apart : ∀ r r' : Region, r.Live s dirs → r'.Live s dirs → r ≠ r' →
    (r.extent s).Apart (r'.extent s)

/-- The fields of the directories are the same in both memories. -/
def SameDirectories (dirs : List Word) (mem mem' : Mem) : Prop :=
  ∀ dir ∈ dirs, PageDirectory.physicalAddress mem' dir = PageDirectory.physicalAddress mem dir ∧
    ∀ index : Word, index.toNat < 1024 →
      PageDirectory.entry mem' dir index = PageDirectory.entry mem dir index ∧
      PageDirectory.table mem' dir index = PageDirectory.table mem dir index

theorem SameDirectories.trans {dirs : List Word} {mem mem' mem'' : Mem}
    (first : SameDirectories dirs mem mem') (second : SameDirectories dirs mem' mem'') :
    SameDirectories dirs mem mem'' := by
  intro dir member
  obtain ⟨physical, fields⟩ := first dir member
  obtain ⟨physical', fields'⟩ := second dir member
  refine ⟨physical'.trans physical, fun index small => ⟨?_, ?_⟩⟩
  · exact (fields' index small).1.trans (fields index small).1
  · exact (fields' index small).2.trans (fields index small).2

theorem SameDirectories.present {dirs : List Word} {mem mem' : Mem}
    (same : SameDirectories dirs mem mem') {dir index : Word} (member : dir ∈ dirs)
    (small : index.toNat < 1024) :
    PageDirectory.present mem' dir index = PageDirectory.present mem dir index := by
  rw [PageDirectory.present, PageDirectory.present, ((same dir member).2 index small).1]

/-- Directories and tables are where they were when the directories are the same. -/
theorem SameDirectories.regions_of_ne {s s' : Machine} {dirs : List Word}
    (same : SameDirectories dirs s.mem s'.mem) {r : Region} (ne : r ≠ .bitmap)
    (live : r.Live s' dirs) : r.Live s dirs ∧ r.extent s' = r.extent s := by
  cases r with
  | bitmap => exact absurd rfl ne
  | directory dir => exact ⟨live, rfl⟩
  | table dir index =>
      exact Region.table_congr live.1 ((same dir live.1).2 index live.2.1) live

/-- The regions are where they were when bitmap and directories are. -/
theorem SameDirectories.regions {s s' : Machine} {dirs : List Word}
    (same : SameDirectories dirs s.mem s'.mem) (bitmap : s'.frameBitmap = s.frameBitmap)
    (total : s'.totalFrames = s.totalFrames) {r : Region} (live : r.Live s' dirs) :
    r.Live s dirs ∧ r.extent s' = r.extent s := by
  by_cases ne : r = .bitmap
  · subst ne
    rw [Region.Live, total] at live
    refine ⟨live, ?_⟩
    rw [Region.extent, Region.extent, bitmapExtent, bitmapExtent, bitmap, total]
  · exact same.regions_of_ne ne live

namespace Separated

variable {A : Allocator} {s s' : Machine} {dirs dirs' : List Word} (sep : Separated A s dirs)
include sep

theorem fits {r : Region} (live : r.Live s dirs) : (r.extent s).Fits := by
  obtain ⟨blocks, allocated, member⟩ := sep.allocated
  exact A.fits allocated _ (member r live)

theorem fits_directory {dir : Word} (member : dir ∈ dirs) : dir.toNat + 8196 ≤ 2 ^ 32 :=
  sep.fits (r := .directory dir) member

theorem fits_table {dir index : Word} (live : (Region.table dir index).Live s dirs) :
    (PageDirectory.table s.mem dir index).toNat + 4096 ≤ 2 ^ 32 :=
  sep.fits live

/-- A store inside one region leaves the others alone. -/
theorem sameOn {r r' : Region} (live : r.Live s dirs) (live' : r'.Live s dirs) (ne : r ≠ r')
    (frame : ∀ x, ¬ Covers (r.extent s).addr (r.extent s).length x → s'.mem x = s.mem x) :
    (r'.extent s).SameOn s.mem s'.mem :=
  (sep.apart r r' live live' ne).sameOn frame

/-- The regions after a change: the old ones where they were, and one in a new block. -/
theorem grow {e : Extent} (r₀ : Region) {blocks : List Extent}
    (small : s'.totalFrames.toNat < 2 ^ 20) (allocated : A.Allocated (e :: blocks) s'.mem)
    (old : ∀ r : Region, r.Live s dirs → r.extent s ∈ blocks)
    (regions : ∀ r : Region, r.Live s' dirs' →
      (r.Live s dirs ∧ r.extent s' = r.extent s) ∨ (r = r₀ ∧ r.extent s' = e)) :
    Separated A s' dirs' := by
  have fresh := (List.pairwise_cons.mp (A.apart allocated)).1
  refine ⟨small, ⟨e :: blocks, allocated, fun r live => ?_⟩, fun r r' live live' ne => ?_⟩
  · rcases regions r live with ⟨was, same⟩ | ⟨-, same⟩
    · rw [same]
      exact List.mem_cons_of_mem e (old r was)
    · rw [same]
      exact List.mem_cons_self
  · rcases regions r live with ⟨was, same⟩ | ⟨new, same⟩ <;>
      rcases regions r' live' with ⟨was', same'⟩ | ⟨new', same'⟩ <;> rw [same, same']
    · exact sep.apart r r' was was' ne
    · exact (fresh _ (old r was)).symm
    · exact fresh _ (old r' was')
    · exact absurd (new.trans new'.symm) ne

/-- The regions after a change that adds none: they are where they were. -/
theorem keep {blocks : List Extent} (small : s'.totalFrames.toNat < 2 ^ 20)
    (allocated : A.Allocated blocks s'.mem)
    (old : ∀ r : Region, r.Live s dirs → r.extent s ∈ blocks)
    (regions : ∀ r : Region, r.Live s' dirs' → r.Live s dirs ∧ r.extent s' = r.extent s) :
    Separated A s' dirs' := by
  refine ⟨small, ⟨blocks, allocated, fun r live => ?_⟩, fun r r' live live' ne => ?_⟩
  · obtain ⟨was, extent⟩ := regions r live
    rw [extent]
    exact old r was
  · obtain ⟨was, extent⟩ := regions r live
    obtain ⟨was', extent'⟩ := regions r' live'
    rw [extent, extent']
    exact sep.apart r r' was was' ne

/-- A store inside a region that is not a directory leaves the directories alone. -/
theorem sameDirectories {r₀ : Region} (live : r₀.Live s dirs)
    (other : ∀ dir, r₀ ≠ .directory dir)
    (frame : ∀ x, ¬ Covers (r₀.extent s).addr (r₀.extent s).length x → s'.mem x = s.mem x) :
    SameDirectories dirs s.mem s'.mem := by
  intro dir member
  have here : (Region.directory dir).Live s dirs := member
  exact PageDirectory.fields_congr (sep.fits_directory member)
    (sep.sameOn live here (other dir) frame)

/-- A store inside a region that is not a directory keeps the separation. -/
theorem store {r₀ : Region} (live : r₀.Live s dirs) (other : ∀ dir, r₀ ≠ .directory dir)
    (bitmap : s'.frameBitmap = s.frameBitmap) (total : s'.totalFrames = s.totalFrames)
    (frame : ∀ x, ¬ Covers (r₀.extent s).addr (r₀.extent s).length x → s'.mem x = s.mem x) :
    Separated A s' dirs := by
  obtain ⟨blocks, allocated, old⟩ := sep.allocated
  exact sep.keep (by rw [total]; exact sep.small)
    (A.stable_of_mem allocated (old r₀ live) frame) old
    fun r live' => (sep.sameDirectories live other frame).regions bitmap total live'

/-- The walk depends on the bytes of the directory and of the table only. -/
theorem lookup_congr {dir virt : Word} {mem' : Mem} (member : dir ∈ dirs)
    (directory : ((Region.directory dir).extent s).SameOn s.mem mem')
    (table : (Region.table dir (pdIndex virt)).Live s dirs →
      ((Region.table dir (pdIndex virt)).extent s).SameOn s.mem mem') :
    lookup mem' dir virt = lookup s.mem dir virt := by
  have same := (PageDirectory.fields_congr (sep.fits_directory member) directory).2 _
    (pdIndex_lt virt)
  have bit : PageDirectory.present mem' dir (pdIndex virt) =
      PageDirectory.present s.mem dir (pdIndex virt) := by
    rw [PageDirectory.present, PageDirectory.present, same.1]
  cases present : PageDirectory.present s.mem dir (pdIndex virt) with
  | false => rw [lookup_of_absent present, lookup_of_absent (bit.trans present)]
  | true =>
      have live : (Region.table dir (pdIndex virt)).Live s dirs :=
        ⟨member, pdIndex_lt virt, present⟩
      rw [lookup_of_present present, lookup_of_present (bit.trans present), same.2,
        PageTable.entry_congr (sep.fits_table live) (ptIndex_lt virt) (table live)]

/-- A store inside one region changes no walk through others. -/
theorem lookup_store {r₀ : Region} (live : r₀.Live s dirs)
    (frame : ∀ x, ¬ Covers (r₀.extent s).addr (r₀.extent s).length x → s'.mem x = s.mem x)
    {dir virt : Word} (member : dir ∈ dirs) (directory : r₀ ≠ .directory dir)
    (table : r₀ ≠ .table dir (pdIndex virt)) :
    lookup s'.mem dir virt = lookup s.mem dir virt := by
  have here : (Region.directory dir).Live s dirs := member
  exact sep.lookup_congr member (sep.sameOn live here directory frame)
    fun through => sep.sameOn live through table frame

section Kept

variable {mem' : Mem} (kept : ∀ r : Region, r.Live s dirs → (r.extent s).SameOn s.mem mem')
include kept

/-- A change outside the regions leaves the directories alone. -/
theorem sameDirectories_of_kept : SameDirectories dirs s.mem mem' := fun dir member =>
  PageDirectory.fields_congr (sep.fits_directory member) (kept (.directory dir) member)

/-- A change outside the regions changes no walk. -/
theorem lookup_of_kept {dir : Word} (member : dir ∈ dirs) (virt : Word) :
    lookup mem' dir virt = lookup s.mem dir virt :=
  sep.lookup_congr member (kept (.directory dir) member)
    fun through => kept (.table dir (pdIndex virt)) through

end Kept

/-- Marks are kept by whatever keeps the bytes of the bitmap. -/
theorem marks_congr {i : ℕ} (lt : i < s.totalFrames.toNat)
    (bitmap : s'.frameBitmap = s.frameBitmap)
    (same : (Region.bitmap.extent s).SameOn s.mem s'.mem) : marks s' i = marks s i := by
  have live : Region.bitmap.Live s dirs := Nat.lt_of_le_of_lt (Nat.zero_le i) lt
  have bound := sep.small
  refine frameMarked_congr bitmap (same _ ?_)
  refine covers_bitmapAddr (sep.fits live) bound ?_
  rw [BitVec.toNat_ofNat]
  omega

end Separated

/-! ## A new table -/

/-- What the memory looks like after a new, cleared table at `table` was entered in a
directory. -/
structure TableAdded (s : Machine) (dirs : List Word) (dir index value table : Word)
    (mem' : Mem) : Prop where
  others : ∀ r : Region, r.Live s dirs → r ≠ .directory dir → (r.extent s).SameOn s.mem mem'
  entry_eq : PageDirectory.entry mem' dir index = value
  table_eq : PageDirectory.table mem' dir index = table
  rest : ∀ other : Word, other.toNat < 1024 → other ≠ index →
    PageDirectory.entry mem' dir other = PageDirectory.entry s.mem dir other ∧
    PageDirectory.table mem' dir other = PageDirectory.table s.mem dir other
  physical : PageDirectory.physicalAddress mem' dir = PageDirectory.physicalAddress s.mem dir
  cleared : ∀ other : Word, other.toNat < 1024 → PageTable.entry mem' table other = 0

namespace TableAdded

variable {A : Allocator} {s : Machine} {dirs : List Word} {dir index value table : Word}
  {mem' : Mem}

/-- The other directories keep their fields. -/
theorem fields_of_ne (added : TableAdded s dirs dir index value table mem')
    (sep : Separated A s dirs) {dir' : Word} (member : dir' ∈ dirs) (ne : dir' ≠ dir) :
    PageDirectory.physicalAddress mem' dir' = PageDirectory.physicalAddress s.mem dir' ∧
    ∀ other : Word, other.toNat < 1024 →
      PageDirectory.entry mem' dir' other = PageDirectory.entry s.mem dir' other ∧
      PageDirectory.table mem' dir' other = PageDirectory.table s.mem dir' other := by
  have distinct : Region.directory dir' ≠ .directory dir := by
    rintro ⟨⟩
    exact ne rfl
  exact PageDirectory.fields_congr (sep.fits_directory member)
    (added.others (.directory dir') member distinct)

/-- No walk sees the new table: the entry was absent before, and the table is empty. -/
theorem lookup_eq (added : TableAdded s dirs dir index value table mem')
    (sep : Separated A s dirs) (absent : PageDirectory.present s.mem dir index = false)
    {dir' virt : Word} (member : dir' ∈ dirs) :
    lookup mem' dir' virt = lookup s.mem dir' virt := by
  by_cases same : dir' = dir
  · subst same
    by_cases here : pdIndex virt = index
    · rw [← here] at absent added
      rw [lookup_of_absent absent]
      cases present : PageDirectory.present mem' dir' (pdIndex virt) with
      | false => exact lookup_of_absent present
      | true =>
          rw [lookup_of_present present, added.table_eq, added.cleared _ (ptIndex_lt virt)]
          rfl
    · obtain ⟨entry, table'⟩ := added.rest _ (pdIndex_lt virt) here
      have bit : PageDirectory.present mem' dir' (pdIndex virt) =
          PageDirectory.present s.mem dir' (pdIndex virt) := by
        rw [PageDirectory.present, PageDirectory.present, entry]
      cases present : PageDirectory.present s.mem dir' (pdIndex virt) with
      | false => rw [lookup_of_absent present, lookup_of_absent (bit.trans present)]
      | true =>
          have live : (Region.table dir' (pdIndex virt)).Live s dirs :=
            ⟨member, pdIndex_lt virt, present⟩
          have kept := added.others (.table dir' (pdIndex virt)) live (by rintro ⟨⟩)
          rw [lookup_of_present present, lookup_of_present (bit.trans present), table',
            PageTable.entry_congr (sep.fits_table live) (ptIndex_lt virt) kept]
  · have distinct : Region.directory dir' ≠ .directory dir := by
      rintro ⟨⟩
      exact same rfl
    exact sep.lookup_congr member (added.others _ member distinct)
      fun live => added.others _ live (by rintro ⟨⟩)

/-- The regions are those there were, and the new table. -/
theorem regions (added : TableAdded s dirs dir index value table mem')
    (sep : Separated A s dirs) {r : Region} (live : r.Live { s with mem := mem' } dirs) :
    (r.Live s dirs ∧ r.extent { s with mem := mem' } = r.extent s) ∨
      (r = .table dir index ∧ r.extent { s with mem := mem' } = ⟨table, 4096⟩) := by
  cases r with
  | bitmap => exact Or.inl ⟨live, rfl⟩
  | directory dir' => exact Or.inl ⟨live, rfl⟩
  | table dir' other =>
      have member := live.1
      have small := live.2.1
      by_cases same : dir' = dir
      · subst same
        by_cases here : other = index
        · subst here
          right
          rw [Region.extent, added.table_eq]
          exact ⟨rfl, rfl⟩
        · exact Or.inl (Region.table_congr member (added.rest other small here) live)
      · exact Or.inl (Region.table_congr member
          ((added.fields_of_ne sep member same).2 other small) live)

end TableAdded

namespace Separated

variable {A : Allocator} {s : Machine} {dirs : List Word} (sep : Separated A s dirs)
include sep

/-- **A new table is a new region**, and what it changes beside its own bytes is one entry of
its directory. -/
theorem addTable {dir index value table : Word} {mem₁ : Mem} (member : dir ∈ dirs)
    (small : index.toNat < 1024) (call : A.alloc PageTable.sizeof s.mem = some (table, mem₁))
    (nonnull : table ≠ 0) {mem' : Mem} (made : mem' =
      PageDirectory.enter dir index value table (fill mem₁ table 0 PageTable.sizeof)) :
    Separated A { s with mem := mem' } dirs ∧
      TableAdded s dirs dir index value table mem' := by
  obtain ⟨blocks, allocated, old⟩ := sep.allocated
  have modest : PageTable.sizeof.toNat ≤ maxRequest := by decide
  obtain ⟨fits, apart⟩ := A.apart_fresh allocated modest call nonnull
  have fits_table : table.toNat + 4096 ≤ 2 ^ 32 := fits
  have fits_dir := sep.fits_directory member
  have live_dir : (Region.directory dir).Live s dirs := member
  have kept := A.keeps allocated call
  -- what the three stores leave alone
  have fill_frame : ∀ x, ¬ Covers table 4096 x → fill mem₁ table 0 PageTable.sizeof x = mem₁ x :=
    fun x outside => fill_apply_of_not_covers outside
  have enter_frame : ∀ x, ¬ Covers dir 8196 x →
      mem' x = fill mem₁ table 0 PageTable.sizeof x := by
    intro x outside
    rw [made]
    exact PageDirectory.enter_apply fits_dir small outside
  -- every block handed out before keeps its bytes until the entry is made
  have before : ∀ b ∈ blocks, b.SameOn s.mem (fill mem₁ table 0 PageTable.sizeof) := by
    intro b hb
    exact (kept b hb).trans (Extent.Apart.sameOn (apart b hb) fill_frame)
  have fields := PageDirectory.fields_congr fits_dir (before _ (old (.directory dir) live_dir))
  have added : TableAdded s dirs dir index value table mem' := by
    refine ⟨fun r live ne => ?_, ?_, ?_, fun other small' ne => ?_, ?_, fun other small' => ?_⟩
    · have far := sep.apart (.directory dir) r live_dir live ne.symm
      exact (before _ (old r live)).trans (Extent.Apart.sameOn far enter_frame)
    · rw [made, PageDirectory.entry_enter_self fits_dir small]
    · rw [made, PageDirectory.table_enter_self]
    · rw [made, PageDirectory.entry_enter_of_ne fits_dir small small' ne,
        PageDirectory.table_enter_of_ne fits_dir small small' ne]
      exact fields.2 other small'
    · rw [made, PageDirectory.physicalAddress_enter fits_dir small]
      exact fields.1
    · have far := apart _ (old (.directory dir) live_dir)
      have bytes : SameOn table 4096 (fill mem₁ table 0 PageTable.sizeof) mem' :=
        Extent.Apart.sameOn far.symm enter_frame
      rw [PageTable.entry_congr fits_table small' bytes, PageTable.entry_fill fits_table small']
  refine ⟨?_, added⟩
  have filled := A.stable_of_mem (A.fresh allocated modest call nonnull) List.mem_cons_self
    fill_frame
  have entered := A.stable_of_mem filled (List.mem_cons_of_mem _ (old _ live_dir)) enter_frame
  exact sep.grow (.table dir index) sep.small entered old fun r live => added.regions sep live

/-! ## A new directory -/

/-- **A new directory is a new region**, and no other region changes. -/
theorem addDirectory {dir : Word} {mem₁ : Mem}
    (call : A.alloc PageDirectory.sizeof s.mem = some (dir, mem₁)) (nonnull : dir ≠ 0)
    {mem' : Mem} (made : mem' = PageDirectory.create dir mem₁) :
    dir ∉ dirs ∧ Separated A { s with mem := mem' } (dir :: dirs) ∧
      (∀ r : Region, r.Live s dirs → (r.extent s).SameOn s.mem mem') ∧
      PageDirectory.physicalAddress mem' dir = dir ∧
      ∀ index : Word, index.toNat < 1024 → PageDirectory.present mem' dir index = false := by
  obtain ⟨blocks, allocated, old⟩ := sep.allocated
  have modest : PageDirectory.sizeof.toNat ≤ maxRequest := by decide
  obtain ⟨fits, apart⟩ := A.apart_fresh allocated modest call nonnull
  have fits_dir : dir.toNat + 8196 ≤ 2 ^ 32 := fits
  have stranger : dir ∉ dirs := by
    intro member
    have here : Covers dir 8196 dir := ⟨Nat.le_refl _, by omega⟩
    exact apart _ (old (.directory dir) member) dir here here
  have frame : ∀ x, ¬ Covers dir 8196 x → mem' x = mem₁ x := by
    intro x outside
    rw [made]
    exact PageDirectory.create_apply fits_dir mem₁ outside
  have kept : ∀ r : Region, r.Live s dirs → (r.extent s).SameOn s.mem mem' := by
    intro r live
    have member := old r live
    exact (A.keeps allocated call _ member).trans
      (Extent.Apart.sameOn (apart _ member) frame)
  have empty : ∀ index : Word, index.toNat < 1024 →
      PageDirectory.present mem' dir index = false := by
    intro index small
    rw [PageDirectory.present_eq, made, PageDirectory.entry_create fits_dir mem₁ small]
    rfl
  refine ⟨stranger, ?_, kept, by rw [made, PageDirectory.physicalAddress_create], empty⟩
  have created := A.stable_of_mem (A.fresh allocated modest call nonnull) List.mem_cons_self frame
  refine sep.grow (.directory dir) sep.small created old fun r live => ?_
  cases r with
  | bitmap => exact Or.inl ⟨live, rfl⟩
  | directory dir' =>
      rcases List.mem_cons.mp live with rfl | member
      · exact Or.inr ⟨rfl, rfl⟩
      · exact Or.inl ⟨member, rfl⟩
  | table dir' index =>
      obtain ⟨member, small, present⟩ := live
      rcases List.mem_cons.mp member with rfl | old_member
      · rw [empty index small] at present
        contradiction
      · have fields := PageDirectory.fields_congr (sep.fits_directory old_member)
          (kept (.directory dir') old_member)
        exact Or.inl (Region.table_congr old_member (fields.2 index small)
          ⟨member, small, present⟩)

/-! ## Stores to the bitmap and to a table -/

/-- A store to the bitmap changes no directory and no walk. -/
theorem storeBitmap (s' : Machine) (some_frames : 0 < s.totalFrames.toNat)
    (bitmap : s'.frameBitmap = s.frameBitmap) (total : s'.totalFrames = s.totalFrames)
    (frame : ∀ x, ¬ Covers (bitmapExtent s).addr (bitmapExtent s).length x →
      s'.mem x = s.mem x) :
    Separated A s' dirs ∧ SameDirectories dirs s.mem s'.mem ∧
      ∀ dir ∈ dirs, ∀ virt, lookup s'.mem dir virt = lookup s.mem dir virt := by
  have live : Region.bitmap.Live s dirs := some_frames
  have not_dir : ∀ dir, Region.bitmap ≠ .directory dir := by
    rintro dir ⟨⟩
  refine ⟨sep.store live not_dir bitmap total frame, sep.sameDirectories live not_dir frame, ?_⟩
  intro dir member virt
  exact sep.lookup_store live frame member (not_dir dir) (by rintro ⟨⟩)

/-- A store to an entry of a table changes no directory, no mark, and the walk of one page of
one directory. -/
theorem storeEntry (s' : Machine) {dir virt value : Word} (member : dir ∈ dirs)
    (here : PageDirectory.present s.mem dir (pdIndex virt) = true)
    (bitmap : s'.frameBitmap = s.frameBitmap) (total : s'.totalFrames = s.totalFrames)
    (made : s'.mem = PageTable.setEntry (PageDirectory.table s.mem dir (pdIndex virt))
      (ptIndex virt) value s.mem) :
    Separated A s' dirs ∧ SameDirectories dirs s.mem s'.mem ∧
      (∀ i < s.totalFrames.toNat, marks s' i = marks s i) ∧
      ∀ dir' ∈ dirs, ∀ virt', lookup s'.mem dir' virt' =
        if dir' = dir ∧ pageOf virt' = pageOf virt then backing value
        else lookup s.mem dir' virt' := by
  have live : (Region.table dir (pdIndex virt)).Live s dirs := ⟨member, pdIndex_lt virt, here⟩
  have fits := sep.fits_table live
  have frame : ∀ x, ¬ Covers (PageDirectory.table s.mem dir (pdIndex virt)) 4096 x →
      s'.mem x = s.mem x := by
    intro x outside
    rw [made]
    exact PageTable.setEntry_apply fits (ptIndex_lt virt) outside
  have not_dir : ∀ dir', Region.table dir (pdIndex virt) ≠ .directory dir' := by
    rintro dir' ⟨⟩
  have same := sep.sameDirectories live not_dir frame
  refine ⟨sep.store live not_dir bitmap total frame, same, fun i lt => ?_, ?_⟩
  · have some_frames : Region.bitmap.Live s dirs := Nat.lt_of_le_of_lt (Nat.zero_le i) lt
    exact sep.marks_congr lt bitmap (sep.sameOn live some_frames (by rintro ⟨⟩) frame)
  · intro dir' member' virt'
    by_cases through : dir' = dir ∧ pdIndex virt' = pdIndex virt
    · obtain ⟨rfl, index⟩ := through
      have bit := same.present member' (pdIndex_lt virt)
      have table := ((same dir' member').2 _ (pdIndex_lt virt)).2
      rw [lookup_of_present (by rw [index, bit, here]), index, table]
      by_cases entry : ptIndex virt' = ptIndex virt
      · rw [if_pos ⟨rfl, pageOf_eq_iff.mpr ⟨index, entry⟩⟩, entry, made,
          PageTable.entry_setEntry_self]
      · rw [if_neg fun page => entry (pageOf_eq_iff.mp page.2).2,
          lookup_of_present (by rw [index, here]), index, made,
          PageTable.entry_setEntry_of_ne fits (ptIndex_lt virt) (ptIndex_lt virt') entry]
    · have other : Region.table dir (pdIndex virt) ≠ .table dir' (pdIndex virt') := by
        intro eq
        injection eq with same_dir same_index
        exact through ⟨same_dir.symm, same_index.symm⟩
      rw [if_neg fun page => through ⟨page.1, (pageOf_eq_iff.mp page.2).1⟩]
      exact sep.lookup_store live frame member' (not_dir dir') other

end Separated

end CocosOS.Kernel.Memory
