import CocosOS.Filesystem.FileTable

/-!
# The slots of the file table

`fs_create` counts a slot up without looking at what it holds or at the slots before it. Two
promises hang on that.

A new file is empty, and the size of a file is the length of its content, exactly if every file
that is created takes a slot without content (`new_files_empty_iff`). `fs_init` only resets the
count, so the slots that are taken after it still hold what was written before.

The names of the files differ, and so every file is found by its name, exactly if no file is
created whose name is there already (`names_unique_iff`).
-/

set_option autoImplicit false

namespace CocosOS.Filesystem.FileTable

open Library.CString

/-! ## Every step of a run -/

theorem after_append (table : Files) (calls more : List FsCall) :
    after table (calls ++ more) = after (after table calls) more := List.foldl_append

theorem after_concat (table : Files) (calls : List FsCall) (call : FsCall) :
    after table (calls ++ [call]) = (call.perform (after table calls)).2 := after_append ..

/-- Every state of a run from the start, the last one included. -/
def AllStates (property : Files → Prop) (calls : List FsCall) : Prop :=
  ∀ before, before <+: calls → property (after start before)

/-- Every call of a run from the start, with the table it is made in. -/
def AllCalls (allowed : Files → FsCall → Prop) (calls : List FsCall) : Prop :=
  ∀ before call, before ++ [call] <+: calls → allowed (after start before) call

/-- **What allowed calls preserve holds in every state.** -/
theorem AllCalls.allStates {allowed : Files → FsCall → Prop} {property : Files → Prop}
    {calls : List FsCall} (first : property start)
    (step : ∀ table call, Bounded table → property table → allowed table call →
      property (call.perform table).2)
    (all : AllCalls allowed calls) : AllStates property calls := by
  intro before
  induction before using List.reverseRecOn with
  | nil => exact fun _ => first
  | append_singleton before call ih =>
      intro inside
      rw [after_concat]
      have shorter : before <+: calls := (List.prefix_append before [call]).trans inside
      exact step _ _ (bounded_start.after before) (ih shorter) (all before call inside)

/-- The call creates a file of this name. -/
def Creates (table : Files) (call : FsCall) (name : Terminated) : Prop :=
  call = .create (some name) ∧ name.length < MAX_FILENAME ∧ table.fileCount < MAX_FILES

theorem Creates.perform {table : Files} {call : FsCall} {name : Terminated}
    (creates : Creates table call name) : call.perform table = (some 0, table.append name) := by
  obtain ⟨rfl, short, room⟩ := creates
  rw [FsCall.perform, fsCreate, if_neg (Nat.not_le_of_lt short), if_neg (Nat.not_le_of_lt room)]
  rfl

/-- **A call creates a file, stores a content, resets the table or leaves it alone.** -/
theorem perform_cases (table : Files) (call : FsCall) :
    (∃ name, Creates table call name) ∨
      (∃ i content, i < table.fileCount ∧ content.length < MAX_FILE_SIZE ∧
        (call.perform table).2 = table.store i content) ∨
      (call.perform table).2 = fsInit table ∨ (call.perform table).2 = table := by
  cases call with
  | init => exact Or.inr (Or.inr (Or.inl rfl))
  | read name => exact Or.inr (Or.inr (Or.inr rfl))
  | create name =>
      rcases fsCreate_cases name table with failed | ⟨string, rfl, short, room, -⟩
      · exact Or.inr (Or.inr (Or.inr (congrArg Prod.snd failed)))
      · exact Or.inl ⟨string, rfl, short, room⟩
  | write name data =>
      rcases fsWrite_cases name data table with
        failed | ⟨_, content, i, -, -, short, found, written⟩
      · exact Or.inr (Or.inr (Or.inr (congrArg Prod.snd failed)))
      · exact Or.inr (Or.inl ⟨i, content, (Files.lookup_spec found).1, short,
          congrArg Prod.snd written⟩)

/-! ## New files -/

/-- The slot that a file is created in holds no content. -/
def TakesEmptySlot (table : Files) (call : FsCall) : Prop :=
  ∀ name, Creates table call name → text (table.files table.fileCount).data MAX_FILE_SIZE = []

/-- The size of each file is the length of its content. -/
def SizesMatch (table : Files) : Prop :=
  ∀ i < table.fileCount,
    (table.files i).size = (text (table.files i).data MAX_FILE_SIZE).length

/-- In a run, a file that was not there before reads as the empty string from its creation until it
is written or the table is reset, and the sizes are right in every state. -/
structure NewFilesEmpty (calls : List FsCall) : Prop where
  reads : ∀ before name between, before ++ .create (some name) :: between <+: calls →
    (after start before).lookup name = none → (fsCreate (some name) (after start before)).1 = 0 →
    Undisturbed name (fsCreate (some name) (after start before)).2 between →
    yields (fsRead (some name) (after start (before ++ .create (some name) :: between))) = some []
  sizes : AllStates SizesMatch calls

theorem size_append (table : Files) (name : Terminated) (i : ℕ) :
    ((table.append name).files i).size =
      if i = table.fileCount then 0 else (table.files i).size := by
  rw [Files.append, Files.files_modify]
  split_ifs with new
  · rfl
  · rfl

theorem size_store (table : Files) (i : ℕ) (data : Terminated) (j : ℕ) :
    ((table.store i data).files j).size =
      if j = i then (data.length : ℤ) else (table.files j).size := by
  rw [Files.store, Files.files_modify]
  split_ifs with same
  · rfl
  · rfl

/-- The sizes stay right if a file takes an empty slot. -/
theorem SizesMatch.perform {table : Files} {call : FsCall} (sizes : SizesMatch table)
    (empty : TakesEmptySlot table call) : SizesMatch (call.perform table).2 := by
  rcases perform_cases table call with ⟨name, creates⟩ | ⟨i, content, -, short, stored⟩ |
    reset | same
  · rw [creates.perform]
    intro j inside
    rw [size_append, table.data_append]
    split_ifs with new
    · rw [new, empty name creates]
      rfl
    · exact sizes j (Nat.lt_of_le_of_ne (Nat.le_of_lt_succ inside) new)
  · rw [stored]
    intro j inside
    rw [size_store, table.data_store]
    split_ifs with here
    · rw [text_strcpy _ short.le, content.length_chars]
    · exact sizes j inside
  · rw [reset]
    exact fun j inside => absurd inside (Nat.not_lt_zero j)
  · rw [same]
    exact sizes

/-- **New files are empty and sizes are right exactly if files are created in slots without
content.** -/
theorem new_files_empty_iff (calls : List FsCall) :
    NewFilesEmpty calls ↔ AllCalls TakesEmptySlot calls := by
  constructor
  · -- the size of a new file is 0
    intro laws before call inside name creates
    have size := laws.sizes _ inside
    rw [after_concat, creates.perform] at size
    have length := size _ (Nat.lt_succ_self (after start before).fileCount)
    rw [size_append, if_pos rfl, Files.data_append] at length
    exact List.eq_nil_of_length_eq_zero (Int.natCast_eq_zero.mp length.symm)
  · intro empty
    constructor
    · intro before name between inside missing returned undisturbed
      have creates : Creates (after start before) (.create (some name)) name := by
        rcases fsCreate_cases (some name) (after start before) with failed |
          ⟨_, same, short, room, -⟩
        · rw [failed] at returned
          exact absurd returned.symm returned_ne
        · obtain rfl := Option.some.inj same
          exact ⟨rfl, short, room⟩
      have early : before ++ [.create (some name)] <+: calls := by
        rw [List.append_cons] at inside
        exact (List.prefix_append _ between).trans inside
      have created : (fsCreate (some name) (after start before)).2 =
          (after start before).append name := congrArg Prod.snd creates.perform
      have holds : Holds ((after start before).append name) name [] := by
        refine ⟨(after start before).fileCount, ?_, ?_⟩
        · rw [Files.lookup_append, missing, if_pos rfl]
          rfl
        · rw [Files.data_append]
          exact empty before _ early name creates
      rw [created] at undisturbed
      rw [List.append_cons, after_append, after_concat, creates.perform]
      exact (holds.after undisturbed).yields
    · exact empty.allStates (fun i inside => absurd inside (Nat.not_lt_zero i))
        fun table call _ sizes takes => sizes.perform takes

/-- The file named `a`. -/
def fileA : Terminated := .single 97 (by decide)

/-- The content `x` of a file shows through after a reset. -/
theorem old_content_shows : ¬ NewFilesEmpty
    [.create (some fileA), .write (some fileA) (some ⟨fun i =>
      if i = 0 then 120 else 0, 1, by decide, rfl⟩), .init, .create (some fileA)] := by
  intro laws
  have reads := laws.reads [.create (some fileA), .write (some fileA) (some ⟨fun i =>
    if i = 0 then 120 else 0, 1, by decide, rfl⟩), .init] fileA [] List.prefix_rfl
    (by decide +kernel) (by decide +kernel) trivial
  exact absurd reads (by decide +kernel)

/-! ## Names -/

/-- The name of the file that is created is not there yet. -/
def TakesNewName (table : Files) (call : FsCall) : Prop :=
  ∀ name, Creates table call name → table.lookup name = none

/-- No two files have the same name, and by its name every file is read and written. -/
structure NamesUnique (table : Files) : Prop where
  distinct : ∀ i < table.fileCount, ∀ j < table.fileCount, i ≠ j →
    text (table.files i).name MAX_FILENAME ≠ text (table.files j).name MAX_FILENAME
  reachable : ∀ i < table.fileCount, ∃ name : Terminated,
    name.chars = text (table.files i).name MAX_FILENAME ∧
    fsRead (some name) table = some (table.files i).data ∧
    ∀ data : Terminated, data.length < MAX_FILE_SIZE →
      fsWrite (some name) (some data) table = (0, table.store i data)

/-- A slot compares equal with the characters of its name. -/
theorem Bounded.strcmp_iff {table : Files} (bounded : Bounded table) (i : ℕ) (name : Terminated) :
    strcmp (table.files i).name name = 0 ↔
      text (table.files i).name MAX_FILENAME = name.chars := by
  obtain ⟨own, bytes, -, chars⟩ := exists_terminated (bounded.names i)
  rw [← bytes, strcmp_bytes, chars, bytes]

/-- If the names differ, every file is found by its name. -/
theorem NamesUnique.of_distinct {table : Files} (bounded : Bounded table)
    (distinct : ∀ i < table.fileCount, ∀ j < table.fileCount, i ≠ j →
      text (table.files i).name MAX_FILENAME ≠ text (table.files j).name MAX_FILENAME) :
    NamesUnique table := by
  refine ⟨distinct, fun i inside => ?_⟩
  obtain ⟨name, -, -, chars⟩ := exists_terminated (bounded.names i)
  have found : table.lookup name = some i := by
    cases result : table.lookup name with
    | none =>
        have differs := List.find?_eq_none.mp result i (List.mem_range.mpr inside)
        rw [decide_eq_true_eq, bounded.strcmp_iff] at differs
        exact absurd chars.symm differs
    | some j =>
        obtain ⟨before, same⟩ := Files.lookup_spec result
        rw [bounded.strcmp_iff, chars] at same
        by_contra other
        exact distinct j before i inside (fun equal => other (congrArg some equal)) same
  refine ⟨name, chars, ?_, fun data short => ?_⟩
  · rw [fsRead, found, Option.map_some]
  · rw [fsWrite, if_neg (Nat.not_le_of_lt short), found]
    rfl

/-- A name that is not found is the name of no file. -/
theorem lookup_eq_none_iff {table : Files} (bounded : Bounded table) (name : Terminated) :
    table.lookup name = none ↔
      ∀ i < table.fileCount, text (table.files i).name MAX_FILENAME ≠ name.chars := by
  rw [Files.lookup, List.find?_eq_none]
  constructor
  · intro differ i inside same
    have equal := differ i (List.mem_range.mpr inside)
    rw [decide_eq_true_eq, bounded.strcmp_iff] at equal
    exact equal same
  · intro differ i member
    rw [decide_eq_true_eq, bounded.strcmp_iff]
    exact differ i (List.mem_range.mp member)

/-- The name of each slot after a creation. -/
theorem nameText_append (table : Files) {name : Terminated} (short : name.length < MAX_FILENAME)
    (i : ℕ) : text ((table.append name).files i).name MAX_FILENAME =
      if i = table.fileCount then name.chars else text (table.files i).name MAX_FILENAME := by
  rw [table.name_append]
  split_ifs
  · exact text_strcpy _ short.le
  · rfl

/-- Names stay unique if a file takes a new name. -/
theorem NamesUnique.perform {table : Files} {call : FsCall} (bounded : Bounded table)
    (unique : NamesUnique table) (new : TakesNewName table call) :
    NamesUnique (call.perform table).2 := by
  apply NamesUnique.of_distinct (bounded.perform call)
  rcases perform_cases table call with ⟨name, creates⟩ | ⟨k, content, -, -, stored⟩ | reset | same
  · have fresh := (lookup_eq_none_iff bounded name).mp (new name creates)
    rw [creates.perform]
    intro i inside j inside' differ
    rw [nameText_append table creates.2.1, nameText_append table creates.2.1]
    split_ifs with first second second
    · exact absurd (first.trans second.symm) differ
    · exact (fresh j (Nat.lt_of_le_of_ne (Nat.le_of_lt_succ inside') second)).symm
    · exact fresh i (Nat.lt_of_le_of_ne (Nat.le_of_lt_succ inside) first)
    · exact unique.distinct i (Nat.lt_of_le_of_ne (Nat.le_of_lt_succ inside) first) j
        (Nat.lt_of_le_of_ne (Nat.le_of_lt_succ inside') second) differ
  · rw [stored]
    intro i inside j inside' differ
    rw [table.name_store, table.name_store]
    exact unique.distinct i inside j inside' differ
  · rw [reset]
    exact fun i inside => absurd inside (Nat.not_lt_zero i)
  · rw [same]
    exact unique.distinct

theorem NamesUnique.start : NamesUnique start :=
  .of_distinct bounded_start fun i inside => absurd inside (Nat.not_lt_zero i)

/-- **The names of the files are unique in every state exactly if no file is created whose name is
there already.** -/
theorem names_unique_iff (calls : List FsCall) :
    AllStates NamesUnique calls ↔ AllCalls TakesNewName calls := by
  constructor
  · -- the new slot has the name of the slot that is found
    intro unique before call inside name creates
    have bounded := bounded_start.after before
    have distinct := (unique _ inside).distinct
    rw [after_concat, creates.perform] at distinct
    rw [lookup_eq_none_iff bounded]
    intro i earlier same
    have last : (after FileTable.start before).fileCount <
        ((after FileTable.start before).append name).fileCount := Nat.lt_succ_self _
    apply distinct i (earlier.trans last) _ last earlier.ne
    rw [nameText_append _ creates.2.1, nameText_append _ creates.2.1, if_neg earlier.ne, if_pos rfl]
    exact same
  · intro new
    exact new.allStates NamesUnique.start fun table call bounded unique takes =>
      unique.perform bounded takes

/-- A name is created twice. -/
theorem name_created_twice :
    ¬ AllStates NamesUnique [.create (some fileA), .create (some fileA)] := by
  intro unique
  have distinct := (unique _ List.prefix_rfl).distinct 0 (by decide) 1 (by decide) (by decide)
  exact absurd distinct (by decide +kernel)

end CocosOS.Filesystem.FileTable
