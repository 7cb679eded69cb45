import CocosOS.ProcessManager.CallbackTable

/-!
# One round of the table of functions

While `scheduler_tick` goes through the table, the functions it calls create and kill entries. The
loop compares its index with the count anew each time, so entries that are created on the way are
called in the same round, and entries that are killed before their turn are not called.

A round calls its entries in the order of the table, none of them twice, and leaves out none that
is alive at its end (`round_serves_every_entry`). The functions may do what they like, as long as
they do not kill their own entries and create none without a function, and so it must have been in
the run before the round.
-/

set_option autoImplicit false

namespace CocosOS.ProcessManager.CallbackTable

variable {F : Type*} {system system' : System F}

/-! ## The steps of the loop -/

theorem step_tick (taken : step system .tick = some system') :
    system.control = .idle ∧ system' = { system with control := .testing 0 } := by
  rw [step] at taken
  by_cases idle : system.control = .idle
  · rw [if_pos idle] at taken
    exact ⟨idle, (Option.some.inj taken).symm⟩
  · rw [if_neg idle] at taken
    exact absurd taken (Option.some_ne_none _).symm

theorem step_test (taken : step system .test = some system') :
    ∃ i, system.control = .testing i ∧
      (i < system.table.count ∧ (system.table.entries i).state = .WAITING ∧
          system' = ⟨system.table.setState i .RUNNING, .calling i, .called i :: system.log⟩ ∨
        i < system.table.count ∧ (system.table.entries i).state ≠ .WAITING ∧
          system' = { system with control := .testing (i + 1) } ∨
        system.table.count ≤ i ∧ system' = { system with control := .idle }) := by
  cases control : system.control with
  | idle =>
      simp only [step, control] at taken
      exact absurd taken (Option.some_ne_none _).symm
  | calling i =>
      simp only [step, control] at taken
      exact absurd taken (Option.some_ne_none _).symm
  | testing i =>
      simp only [step, control] at taken
      refine ⟨i, rfl, ?_⟩
      by_cases inside : i < system.table.count
      · rw [if_pos inside] at taken
        by_cases waiting : (system.table.entries i).state = .WAITING
        · rw [if_pos waiting] at taken
          exact .inl ⟨inside, waiting, (Option.some.inj taken).symm⟩
        · rw [if_neg waiting] at taken
          exact .inr (.inl ⟨inside, waiting, (Option.some.inj taken).symm⟩)
      · rw [if_neg inside] at taken
        exact .inr (.inr ⟨Nat.le_of_not_lt inside, (Option.some.inj taken).symm⟩)

theorem step_finish (taken : step system .finish = some system') :
    ∃ i, system.control = .calling i ∧
      system' = { system with
        table := system.table.setState i .WAITING
        control := .testing (i + 1) } := by
  cases control : system.control with
  | idle =>
      simp only [step, control] at taken
      exact absurd taken (Option.some_ne_none _).symm
  | testing i =>
      simp only [step, control] at taken
      exact absurd taken (Option.some_ne_none _).symm
  | calling i =>
      simp only [step, control] at taken
      exact ⟨i, rfl, (Option.some.inj taken).symm⟩

/-! ## Entries that are alive -/

/-- An entry that was not killed waits, or its function runs. -/
def Live (system : System F) : Prop :=
  ∀ i < system.table.count, .killed i ∉ system.log →
    (system.table.entries i).state = if system.control = .calling i then .RUNNING else .WAITING

theorem live_start : Live (start : System F) := fun _ inside => absurd inside (Nat.not_lt_zero _)

theorem state_setState (table : Table F) (i : ℕ) (state : EntryState) (j : ℕ) :
    ((table.setState i state).entries j).state =
      if j = i then state else (table.entries j).state := by
  rw [Table.setState, Table.entries_set]
  split_ifs <;> rfl

/-- **A careful step keeps the entries alive.** -/
theorem Live.step (live : Live system) (inv : Consistent system) {action : Action F}
    (careful : Careful system action) (taken : CallbackTable.step system action = some system') :
    Live system' := by
  cases action with
  | create func =>
      rcases step_create taken with rfl | ⟨room, rfl⟩
      · exact live
      intro i inside unkilled
      dsimp only at inside unkilled ⊢
      rw [Table.entries_set]
      by_cases new : i = system.table.count
      · have fresh : system.control ≠ .calling i := fun calling =>
          absurd (inv.executing i calling).1 (new ▸ Nat.lt_irrefl _)
        rw [if_pos new, if_neg fresh]
      · rw [if_neg new]
        refine live i (by omega) fun killed => unkilled (List.mem_cons_of_mem _ killed)
  | kill pid =>
      rcases step_kill taken with rfl | ⟨killed, rfl, here, rfl⟩
      · exact live
      intro i inside unkilled
      have other : i ≠ killed := fun same => unkilled (same ▸ List.mem_cons_self)
      dsimp only
      rw [Table.entries_set, if_neg other, state_setState, if_neg other]
      exact live i inside fun earlier => unkilled (List.mem_cons_of_mem _ earlier)
  | tick =>
      obtain ⟨idle, rfl⟩ := step_tick taken
      intro i inside unkilled
      have before := live i inside unkilled
      rw [idle] at before
      exact before
  | test =>
      obtain ⟨turn, testing, ⟨here, waiting, rfl⟩ | ⟨here, waiting, rfl⟩ | ⟨past, rfl⟩⟩ :=
        step_test taken
      · intro i inside unkilled
        have before := live i inside fun earlier => unkilled (List.mem_cons_of_mem _ earlier)
        rw [testing, if_neg (by simp)] at before
        dsimp only
        rw [state_setState, before]
        simp only [Control.calling.injEq, eq_comm]
      · intro i inside unkilled
        have before := live i inside unkilled
        rw [testing, if_neg (by simp)] at before
        rw [before, if_neg (by simp)]
      · intro i inside unkilled
        have before := live i inside unkilled
        rw [testing, if_neg (by simp)] at before
        rw [before, if_neg (by simp)]
  | finish =>
      obtain ⟨turn, calling, rfl⟩ := step_finish taken
      intro i inside unkilled
      have before := live i inside unkilled
      have returned : ¬ Control.testing (turn + 1) = .calling i := by simp
      dsimp only
      rw [state_setState, if_neg returned]
      by_cases here : i = turn
      · rw [if_pos here]
      · have elsewhere : system.control ≠ .calling i := fun same =>
          here (Control.calling.inj (same.symm.trans calling))
        rw [if_neg here, before, if_neg elsewhere]

theorem live_of_reachable (reached : Reachable Careful system) : Live system := by
  induction reached with
  | start => exact live_start
  | next action reached careful taken ih =>
      exact ih.step (consistent_of_reachable reached) careful taken

/-! ## A round -/

/-- The states from the call of `scheduler_tick` to its return. -/
inductive InRound (started : System F) : System F → Prop where
  | tick {system : System F} (taken : step started .tick = some system) : InRound started system
  | next {system system' : System F} (action : Action F) (during : InRound started system)
      (busy : system.control ≠ .idle) (careful : Careful system action)
      (taken : step system action = some system') : InRound started system'

theorem InRound.reachable {started : System F} (during : InRound started system)
    (reached : Reachable Careful started) : Reachable Careful system := by
  induction during with
  | tick taken => exact .next .tick reached trivial taken
  | next action during busy careful taken ih => exact .next action ih careful taken

/-- The entries that were called, the latest one first. -/
def calledIn (events : List (Event F)) : List ℕ :=
  events.filterMap fun event => match event with
    | .called i => some i
    | _ => none

/-- How many entries had their turn. -/
def Control.passed (count : ℕ) : Control → ℕ
  | .testing i => i
  | .calling i => i + 1
  | .idle => count

/-- The events of a round: the calls came in the order of the table, and each entry that had its
turn was called or killed. -/
structure Served (started system : System F) (events : List (Event F)) : Prop where
  log : system.log = events ++ started.log
  ordered : (calledIn events).Pairwise (· > ·)
  bounded : ∀ i ∈ calledIn events, i < system.control.passed system.table.count
  inside : ∀ i ∈ calledIn events, i < system.table.count
  all : ∀ i < system.control.passed system.table.count, i < system.table.count →
    i ∈ calledIn events ∨ .killed i ∈ system.log

namespace Served

variable {started : System F} {events : List (Event F)}

/-- Creating and killing entries takes no entry its turn. -/
theorem passed_of_busy (busy : system.control ≠ .idle) (count : ℕ) :
    system.control.passed count = system.control.passed system.table.count := by
  cases control : system.control with
  | idle => exact absurd control busy
  | testing i => rfl
  | calling i => rfl

theorem tick (taken : step started .tick = some system) : Served started system [] := by
  obtain ⟨idle, rfl⟩ := step_tick taken
  exact ⟨rfl, .nil, fun _ called => absurd called List.not_mem_nil,
    fun _ called => absurd called List.not_mem_nil, fun i turn => absurd turn (Nat.not_lt_zero i)⟩

/-- Code that `scheduler_tick` calls creates or kills an entry. -/
theorem log_event (served : Served started system events) (inv : Consistent system)
    {event : Event F} (noCall : calledIn [event] = []) {table : Table F}
    (grows : table.count = system.table.count ∨
      table.count = system.table.count + 1 ∧ ∃ i, system.control = .calling i)
    (busy : system.control ≠ .idle) :
    Served started { system with table := table, log := event :: system.log }
      (event :: events) := by
  have same : calledIn (event :: events) = calledIn events := by
    have split : calledIn (event :: events) = calledIn [event] ++ calledIn events :=
      List.filterMap_append (l := [event])
    rw [split, noCall, List.nil_append]
  have passed := passed_of_busy busy table.count
  refine ⟨?_, ?_, ?_, ?_, ?_⟩
  · dsimp only
    rw [served.log, List.cons_append]
  · rw [same]
    exact served.ordered
  · dsimp only
    rw [same, passed]
    exact served.bounded
  · rw [same]
    intro i called
    have here := served.inside i called
    dsimp only
    omega
  · dsimp only
    rw [same, passed]
    intro i turn inside
    have here : i < system.table.count := by
      rcases grows with unchanged | ⟨more, current, calling⟩
      · exact unchanged ▸ inside
      · have before := (inv.executing current calling).1
        rw [calling, Control.passed] at turn
        omega
    exact (served.all i turn here).imp_right (List.mem_cons_of_mem _)

/-- An entry that waits is called in its turn. -/
theorem call (served : Served started system events) {turn : ℕ}
    (testing : system.control = .testing turn) (here : turn < system.table.count)
    {table : Table F} (count : table.count = system.table.count) :
    Served started ⟨table, .calling turn, .called turn :: system.log⟩
      (.called turn :: events) := by
  have passed : ∀ count, system.control.passed count = turn := by
    intro count
    rw [testing, Control.passed]
  have bounded := served.bounded
  have all := served.all
  rw [passed] at bounded all
  have calls : calledIn (Event.called turn :: events) = turn :: calledIn events := rfl
  refine ⟨?_, ?_, ?_, ?_, ?_⟩
  · dsimp only
    rw [served.log, List.cons_append]
  · rw [calls]
    exact List.Pairwise.cons bounded served.ordered
  · intro i called
    rw [calls, List.mem_cons] at called
    change i < turn + 1
    rcases called with rfl | earlier
    · exact Nat.lt_succ_self i
    · exact Nat.lt_succ_of_lt (bounded i earlier)
  · intro i called
    rw [calls, List.mem_cons] at called
    dsimp only
    rw [count]
    rcases called with rfl | earlier
    · exact here
    · exact served.inside i earlier
  · intro i past inside
    change i < turn + 1 at past
    rw [calls]
    rcases Nat.lt_succ_iff_lt_or_eq.mp past with before | rfl
    · exact (all i before (count ▸ inside)).imp (List.mem_cons_of_mem _)
        (List.mem_cons_of_mem _)
    · exact .inl List.mem_cons_self

/-- An entry that does not wait in its turn was killed. -/
theorem skip (served : Served started system events) (live : Live system) {turn : ℕ}
    (testing : system.control = .testing turn)
    (waiting : (system.table.entries turn).state ≠ .WAITING) :
    Served started { system with control := .testing (turn + 1) } events := by
  have bounded := served.bounded
  have all := served.all
  rw [testing, Control.passed] at bounded all
  refine ⟨served.log, served.ordered, fun i called => Nat.lt_succ_of_lt (bounded i called),
    served.inside, ?_⟩
  intro i past inside
  rcases Nat.lt_succ_iff_lt_or_eq.mp past with before | rfl
  · exact all i before inside
  · right
    by_contra unkilled
    have state := live i inside unkilled
    rw [testing, if_neg (by simp)] at state
    exact waiting state

/-- The function of the entry returns, and the entry had its turn. -/
theorem finish (served : Served started system events) {turn : ℕ}
    (calling : system.control = .calling turn) {table : Table F}
    (count : table.count = system.table.count) :
    Served started { system with table := table, control := .testing (turn + 1) } events := by
  have bounded := served.bounded
  have all := served.all
  rw [calling, Control.passed] at bounded all
  refine ⟨served.log, served.ordered, bounded, ?_, ?_⟩
  · dsimp only
    rw [count]
    exact served.inside
  · dsimp only
    rw [count]
    exact all

/-- The loop ends when every entry had its turn. -/
theorem leave (served : Served started system events) {turn : ℕ}
    (testing : system.control = .testing turn) (past : system.table.count ≤ turn) :
    Served started { system with control := .idle } events := by
  have all := served.all
  rw [testing, Control.passed] at all
  exact ⟨served.log, served.ordered, served.inside, served.inside,
    fun i _ inside => all i (Nat.lt_of_lt_of_le inside past) inside⟩

/-- **A careful step of a round serves the entry whose turn it is.** -/
theorem step (served : Served started system events) (inv : Consistent system)
    (live : Live system) (busy : system.control ≠ .idle) {action : Action F}
    (taken : CallbackTable.step system action = some system') :
    ∃ events, Served started system' events := by
  cases action with
  | create func =>
      have calling : ∃ i, system.control = .calling i := by
        cases control : system.control with
        | idle => exact absurd control busy
        | testing i =>
            rw [CallbackTable.step, control] at taken
            exact absurd taken (Option.some_ne_none _).symm
        | calling i => exact ⟨i, rfl⟩
      rcases step_create taken with rfl | ⟨room, rfl⟩
      · exact ⟨events, served⟩
      · exact ⟨_, served.log_event inv rfl (.inr ⟨rfl, calling⟩) busy⟩
  | kill pid =>
      rcases step_kill taken with rfl | ⟨killed, rfl, here, rfl⟩
      · exact ⟨events, served⟩
      · exact ⟨_, served.log_event inv rfl (.inl rfl) busy⟩
  | tick => exact absurd (step_tick taken).1 busy
  | test =>
      obtain ⟨turn, testing, ⟨here, waiting, rfl⟩ | ⟨here, waiting, rfl⟩ | ⟨past, rfl⟩⟩ :=
        step_test taken
      · exact ⟨_, served.call testing here rfl⟩
      · exact ⟨events, served.skip live testing waiting⟩
      · exact ⟨events, served.leave testing past⟩
  | finish =>
      obtain ⟨turn, calling, rfl⟩ := step_finish taken
      exact ⟨events, served.finish calling rfl⟩

end Served

/-- Every state of a round has served the entries that had their turn. -/
theorem InRound.served {started : System F} (during : InRound started system)
    (reached : Reachable Careful started) : ∃ events, Served started system events := by
  induction during with
  | tick taken => exact ⟨[], Served.tick taken⟩
  | next action during busy careful taken ih =>
      obtain ⟨events, served⟩ := ih
      have here := during.reachable reached
      exact served.step (consistent_of_reachable here) (live_of_reachable here) busy taken

/-- **A round serves every entry.** Let no function kill its own entry and no entry be created
without a function, in the run before the round and in the round. Whatever else the functions
create and kill, a round that comes to its end called its entries in the order of the table, each of
them at most once, and every entry that is in the table at the end was called in the round, or was
killed. -/
theorem round_serves_every_entry {started final : System F}
    (reached : Reachable Careful started) (during : InRound started final)
    (returned : final.control = .idle) :
    ∃ events, final.log = events ++ started.log ∧ (calledIn events).Pairwise (· > ·) ∧
      ∀ i < final.table.count, i ∈ calledIn events ∨ .killed i ∈ final.log := by
  obtain ⟨events, served⟩ := during.served reached
  refine ⟨events, served.log, served.ordered, fun i inside => served.all i ?_ inside⟩
  rw [returned]
  exact inside

/-- A function that creates a second entry, which is called in the same round. -/
theorem created_entry_served : ∃ final : System Unit, final.table.count = 2 ∧
    ∃ events, final.log = events ++ [.created 0 (some ())] ∧
      (calledIn events).Pairwise (· > ·) ∧
      ∀ i < final.table.count, i ∈ calledIn events ∨ .killed i ∈ final.log := by
  let started : System Unit := (step CallbackTable.start (.create (some ()))).get rfl
  have created : Reachable Careful started :=
    .next (.create (some ())) .start (Option.some_ne_none _) rfl
  have ticked : InRound started _ := .tick rfl
  have called : InRound _ _ := .next .test ticked (by decide) trivial rfl
  have second : InRound _ _ :=
    .next (.create (some ())) called (by decide) (Option.some_ne_none _) rfl
  have finished : InRound _ _ := .next .finish second (by decide) trivial rfl
  have calledNext : InRound _ _ := .next .test finished (by decide) trivial rfl
  have finishedNext : InRound _ _ := .next .finish calledNext (by decide) trivial rfl
  have returned : InRound _ _ := .next .test finishedNext (by decide) trivial rfl
  exact ⟨_, rfl, round_serves_every_entry created returned rfl⟩

end CocosOS.ProcessManager.CallbackTable
