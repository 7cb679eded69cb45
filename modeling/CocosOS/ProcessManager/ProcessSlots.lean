import CocosOS.ProcessManager.CallbackTable
import Mathlib.Data.Finset.Card
import Mathlib.Data.Finset.Range

/-!
# Slots of killed processes

`kill_process` clears the slot of a process, and `create_process` only ever takes the slot behind
the last one that was taken. So the table is full for good after `MAX_PROCESSES` creations.

A process is live if it was created and not killed since (`History`). A new process has a pid of
its own in every run. That a creation is refused only while `MAX_PROCESSES` processes are live
holds exactly as long as the table has a slot that was never taken, or nobody was killed
(`slots_reusable_iff`).
-/

set_option autoImplicit false

namespace CocosOS.ProcessManager.CallbackTable

variable {F : Type*}

/-! ## Runs -/

inductive TableCall (F : Type*) where
  | create (func : Option F)
  | kill (pid : ℤ)

/-- The table, and the pids of the processes that are live by what the calls returned. -/
structure History (F : Type*) where
  table : Table F
  live : Finset ℤ

namespace History

def start : History F := ⟨⟨fun _ => Entry.zero, 0⟩, ∅⟩

/-- A call. A creation that is not refused makes its pid live, and a kill ends that. -/
def perform (history : History F) : TableCall F → History F
  | .create func =>
    { table := (createProcess func history.table).2
      live :=
        if 0 ≤ (createProcess func history.table).1 then
          insert (createProcess func history.table).1 history.live
        else history.live }
  | .kill pid => ⟨killProcess pid history.table, history.live.erase pid⟩

/-- The history after calls, the first one first. -/
def after (calls : List (TableCall F)) : History F := calls.foldl perform start

theorem after_concat (calls : List (TableCall F)) (call : TableCall F) :
    after (calls ++ [call]) = (after calls).perform call := List.foldl_append

/-- No call killed a live process. -/
def NoneKilled (calls : List (TableCall F)) : Prop :=
  ∀ before pid, before ++ [.kill pid] <+: calls → pid ∉ (after before).live

/-- What a creation promises: it is refused only if all entries are live, and otherwise its process
has a pid of its own and its function waits under that pid. -/
structure SlotsReusable (history : History F) (func : Option F) : Prop where
  refused : (createProcess func history.table).1 = -1 → history.live.card = MAX_PROCESSES
  fresh : 0 ≤ (createProcess func history.table).1 → ∀ pid ∈ history.live,
    (history.table.entries pid.toNat).pid ≠ (createProcess func history.table).1
  waits : 0 ≤ (createProcess func history.table).1 →
    let entry := (createProcess func history.table).2.entries
      (createProcess func history.table).1.toNat
    entry.func = func ∧ entry.state = .WAITING

end History

/-! ## What the calls do -/

theorem createProcess_of_full {func : Option F} {table : Table F}
    (full : table.count ≥ MAX_PROCESSES) : createProcess func table = (-1, table) := if_pos full

theorem createProcess_of_room {func : Option F} {table : Table F}
    (room : table.count < MAX_PROCESSES) :
    createProcess func table =
      ((table.count : ℤ), { table.set table.count ⟨table.count, .WAITING, func⟩ with
        count := table.count + 1 }) := if_neg (Nat.not_le_of_lt room)

theorem not_nonneg_neg_one : ¬ (0 : ℤ) ≤ -1 := by decide

theorem count_killProcess (pid : ℤ) (table : Table F) :
    (killProcess pid table).count = table.count := by
  rw [killProcess]
  split_ifs <;> rfl

/-- A kill leaves the other entries alone. -/
theorem entries_killProcess {pid : ℤ} {i : ℕ} (other : (i : ℤ) ≠ pid) (table : Table F) :
    (killProcess pid table).entries i = table.entries i := by
  rw [killProcess]
  split_ifs with outside
  · rfl
  · have apart : i ≠ pid.toNat := by omega
    rw [Table.entries_set, if_neg apart, Table.setState, Table.entries_set, if_neg apart]

namespace History

/-! ## Live processes -/

/-- The live processes are in the slots that were taken, each under its own pid. -/
structure Valid (history : History F) : Prop where
  bounded : history.table.count ≤ MAX_PROCESSES
  taken : ∀ pid ∈ history.live, ∃ i < history.table.count, pid = (i : ℤ)
  pids : ∀ i : ℕ, (i : ℤ) ∈ history.live → (history.table.entries i).pid = i

theorem Valid.start : Valid (History.start : History F) :=
  ⟨Nat.zero_le _, fun _ member => absurd member (Finset.notMem_empty _),
    fun _ member => absurd member (Finset.notMem_empty _)⟩

/-- The slot that is taken next has no live process. -/
theorem Valid.count_notMem {history : History F} (valid : Valid history) :
    (history.table.count : ℤ) ∉ history.live := by
  intro member
  obtain ⟨i, inside, same⟩ := valid.taken _ member
  exact inside.ne (Int.ofNat_inj.mp same).symm

/-- **A creation is refused or takes the next slot.** -/
theorem perform_create (history : History F) (func : Option F) :
    history.table.count ≥ MAX_PROCESSES ∧ history.perform (.create func) = history ∨
      history.table.count < MAX_PROCESSES ∧ history.perform (.create func) =
        ⟨{ history.table.set history.table.count ⟨history.table.count, .WAITING, func⟩ with
            count := history.table.count + 1 },
          insert (history.table.count : ℤ) history.live⟩ := by
  rcases Nat.lt_or_ge history.table.count MAX_PROCESSES with room | full
  · right
    refine ⟨room, ?_⟩
    rw [perform, createProcess_of_room room, if_pos (Int.natCast_nonneg _)]
  · left
    refine ⟨full, ?_⟩
    rw [perform, createProcess_of_full full, if_neg not_nonneg_neg_one]

theorem Valid.perform {history : History F} (valid : Valid history) (call : TableCall F) :
    Valid (history.perform call) := by
  cases call with
  | create func =>
      rcases history.perform_create func with ⟨-, same⟩ | ⟨room, created⟩
      · rw [same]
        exact valid
      · rw [created]
        constructor
        · exact room
        · intro pid member
          rcases Finset.mem_insert.mp member with new | old
          · exact ⟨history.table.count, Nat.lt_succ_self _, new⟩
          · obtain ⟨i, inside, same⟩ := valid.taken pid old
            exact ⟨i, Nat.lt_succ_of_lt inside, same⟩
        · intro i member
          change ((history.table.set _ _).entries i).pid = i
          rw [Table.entries_set]
          split_ifs with new
          · rw [new]
          · refine valid.pids i ((Finset.mem_insert.mp member).resolve_left fun same => ?_)
            exact new (Int.ofNat_inj.mp same)
  | kill pid =>
      constructor
      · exact (count_killProcess pid history.table).le.trans valid.bounded
      · intro other member
        obtain ⟨i, inside, same⟩ := valid.taken other (Finset.mem_of_mem_erase member)
        exact ⟨i, inside.trans_eq (count_killProcess pid history.table).symm, same⟩
      · intro i member
        obtain ⟨other, old⟩ := Finset.mem_erase.mp member
        change ((killProcess pid history.table).entries i).pid = i
        rw [entries_killProcess other]
        exact valid.pids i old

theorem valid_after (calls : List (TableCall F)) : Valid (after calls) := by
  induction calls using List.reverseRecOn with
  | nil => exact Valid.start
  | append_singleton calls call ih =>
      rw [after_concat]
      exact ih.perform call

/-! ## Killed processes -/

theorem noneKilled_nil : NoneKilled ([] : List (TableCall F)) := by
  intro before pid inside
  have empty := List.prefix_nil.mp inside
  exact absurd empty (List.append_ne_nil_of_right_ne_nil before (List.cons_ne_nil _ _))

theorem noneKilled_concat (calls : List (TableCall F)) (call : TableCall F) :
    NoneKilled (calls ++ [call]) ↔
      NoneKilled calls ∧ ∀ pid, call = .kill pid → pid ∉ (after calls).live := by
  constructor
  · intro none
    refine ⟨fun before pid inside => none before pid (inside.trans (List.prefix_append _ _)), ?_⟩
    rintro pid rfl
    exact none calls pid List.prefix_rfl
  · rintro ⟨none, last⟩ before pid inside
    rcases List.prefix_concat_iff.mp inside with same | earlier
    · obtain ⟨rfl, one⟩ := List.append_inj' same rfl
      exact last pid (List.singleton_inj.mp one).symm
    · exact none before pid earlier

/-- **All slots that were taken are live exactly if nobody was killed.** Otherwise fewer are. -/
theorem card_live (calls : List (TableCall F)) :
    (after calls).live.card ≤ (after calls).table.count ∧
      ((after calls).live.card = (after calls).table.count ↔ NoneKilled calls) := by
  induction calls using List.reverseRecOn with
  | nil => exact ⟨Nat.le_refl _, iff_of_true rfl noneKilled_nil⟩
  | append_singleton calls call ih =>
      obtain ⟨least, exactly⟩ := ih
      rw [after_concat, noneKilled_concat, ← exactly]
      cases call with
      | create func =>
          have created : ∀ pid, TableCall.create func = .kill pid → pid ∉ (after calls).live :=
            fun pid other => absurd other nofun
          rw [and_iff_left created]
          rcases (after calls).perform_create func with ⟨-, same⟩ | ⟨-, taken⟩
          · rw [same]
            exact ⟨least, Iff.rfl⟩
          · rw [taken, Finset.card_insert_of_notMem (valid_after calls).count_notMem]
            exact ⟨Nat.succ_le_succ least, Nat.succ_inj⟩
      | kill pid =>
          have count : ((after calls).perform (.kill pid)).table.count =
              (after calls).table.count := count_killProcess pid _
          have live : ((after calls).perform (.kill pid)).live = (after calls).live.erase pid := rfl
          rw [count, live]
          by_cases member : pid ∈ (after calls).live
          · have fewer := Finset.card_erase_lt_of_mem member
            refine ⟨fewer.le.trans least, iff_of_false (fewer.trans_le least).ne ?_⟩
            exact fun all => all.2 pid rfl member
          · rw [Finset.erase_eq_of_notMem member]
            refine ⟨least, (and_iff_left ?_).symm⟩
            intro other same
            exact TableCall.kill.inj same ▸ member

/-- **A creation keeps its promise exactly if a slot was never taken or nobody was killed**, after
any calls. -/
theorem slots_reusable_iff (calls : List (TableCall F)) (func : Option F) :
    SlotsReusable (after calls) func ↔
      (after calls).table.count < MAX_PROCESSES ∨ NoneKilled calls := by
  have valid := valid_after calls
  obtain ⟨-, exactly⟩ := card_live calls
  rcases Nat.lt_or_ge (after calls).table.count MAX_PROCESSES with room | full
  · refine iff_of_true ?_ (Or.inl room)
    have created : createProcess func (after calls).table = _ := createProcess_of_room room
    constructor
    · intro refused
      rw [created] at refused
      exact absurd refused (by dsimp only; omega)
    · intro _ pid member
      rw [created]
      obtain ⟨i, inside, rfl⟩ := valid.taken pid member
      rw [Int.toNat_natCast, valid.pids i member]
      exact fun same => inside.ne (Int.ofNat_inj.mp same)
    · intro _
      dsimp only
      rw [created]
      dsimp only
      rw [Int.toNat_natCast, Table.entries_set, if_pos rfl]
      exact ⟨rfl, rfl⟩
  · have refused : createProcess func (after calls).table = _ := createProcess_of_full full
    have count : (after calls).table.count = MAX_PROCESSES := Nat.le_antisymm valid.bounded full
    rw [or_iff_right (Nat.not_lt_of_le full), ← exactly, count]
    constructor
    · intro promise
      exact promise.refused (by rw [refused])
    · intro all
      refine ⟨fun _ => all, fun given => ?_, fun given => ?_⟩
      · rw [refused] at given
        exact absurd given not_nonneg_neg_one
      · rw [refused] at given
        exact absurd given not_nonneg_neg_one

/-- Ten processes are created and one is killed: the table is full and nine are live. -/
theorem killed_slot_is_lost :
    ¬ SlotsReusable (after (List.replicate 10 (.create (some ())) ++ [.kill 3])) (some ()) := by
  intro promise
  have all := promise.refused (by decide)
  exact absurd all (by decide)

end History

end CocosOS.ProcessManager.CallbackTable
