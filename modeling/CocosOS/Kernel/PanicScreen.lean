import Mathlib.Data.Int.Notation
import Mathlib.Logic.Function.Basic
import Mathlib.Tactic.Common
import Mathlib.Tactic.SplitIfs

/-!
# From a kernel panic to the screen

`kernel_panic` leaves its code and a state in two variables and stops the processor. The main loop
of the user interface polls the state, reads the code if a panic is there, and shows it. Both share
one processor, so the loop goes on only where the panicking code is interrupted.

There are two versions of `kernel_panic`. The one in C writes the code, then the state, and only
then turns the interrupts off. The screen shows a code only if `kernel_panic` was called with it,
and only if a switch came between the state and the `cli` (`c_panic_shown`). The one in assembler
turns the interrupts off first, so it is never shown (`asm_panic_not_shown`).
-/

set_option autoImplicit false

namespace CocosOS.Kernel.PanicScreen

/-! ## The two sides -/

def PANIC_NONE : ℤ := 0
def PANIC_FATAL : ℤ := 1

theorem panic_fatal_ne_none : PANIC_FATAL ≠ PANIC_NONE := by decide

inductive Instruction where
  | storeCode
  | storeState
  | cli
  deriving DecidableEq, Repr

/-- `kernel_panic` of `panic.c`, up to its loop of `hlt`. -/
def kernelPanicC : List Instruction := [.storeCode, .storeState, .cli]

/-- `kernel_panic` of `panic.asm`, up to its loop of `hlt`. What it stores as the code is `edi`, where
a caller in C has put the argument on the stack; the code of such a panic is what `edi` holds. -/
def kernelPanicAsm : List Instruction := [.cli, .storeState, .storeCode]

/-- Where `MainLoop.run` is: before a poll, between the two reads of a poll that finds a panic,
before it renders a frame, before it freezes, and frozen. -/
inductive MainLoop where
  | polling
  | reading
  | running
  | showing (code : ℤ)
  | frozen (code : ℤ)
  deriving DecidableEq, Repr

/-- The screen shows this code. -/
def MainLoop.Shows (gui : MainLoop) (code : ℤ) : Prop :=
  gui = .showing code ∨ gui = .frozen code

/-- The threads of the kernel have numbers, and the main loop of the user interface is `none`. A
thread that panics has the code and what is left of `kernel_panic` before its loop. -/
structure Machine where
  kernelPanicState : ℤ
  kernelPanicCode : ℤ
  interrupts : Bool
  current : Option ℕ
  gui : MainLoop
  panics : ℕ → Option (ℤ × List Instruction)

def start : Machine := ⟨PANIC_NONE, 0, true, none, .polling, fun _ => none⟩

/-- A step of the main loop. -/
def MainLoop.next (machine : Machine) : MainLoop → MainLoop
  | .polling => if machine.kernelPanicState ≠ PANIC_NONE then .reading else .running
  | .reading => .showing machine.kernelPanicCode
  | .running => .polling
  | .showing code => .frozen code
  | .frozen code => .frozen code

def execute (code : ℤ) (machine : Machine) : Instruction → Machine
  | .storeCode => { machine with kernelPanicCode := code }
  | .storeState => { machine with kernelPanicState := PANIC_FATAL }
  | .cli => { machine with interrupts := false }

/-- A step of a thread. Outside of `kernel_panic` it does nothing that matters here, and the loop of
`hlt` does nothing. -/
def threadStep (i : ℕ) (machine : Machine) : Option (ℤ × List Instruction) → Machine
  | some (code, instruction :: rest) =>
    { execute code machine instruction with
      panics := Function.update machine.panics i (some (code, rest)) }
  | _ => machine

inductive Action where
  | instruction
  /-- The thread that runs calls `kernel_panic`. -/
  | panic (code : ℤ)
  /-- An interrupt comes, and the scheduler takes another thread. -/
  | switch (next : Option ℕ)
  deriving DecidableEq, Repr

/-- One step. There is none where the action is not possible. -/
def step (kernelPanic : List Instruction) (machine : Machine) : Action → Option Machine
  | .instruction =>
    match machine.current with
    | none => some { machine with gui := machine.gui.next machine }
    | some i => some (threadStep i machine (machine.panics i))
  | .panic code =>
    match machine.current with
    | none => none
    | some i =>
      if (machine.panics i).isSome then none
      else some { machine with
        panics := Function.update machine.panics i (some (code, kernelPanic)) }
  | .switch next => if machine.interrupts then some { machine with current := next } else none

/-- The machines that a run reaches. The run has its latest action first. -/
inductive Run (kernelPanic : List Instruction) : List Action → Machine → Prop where
  | start : Run kernelPanic [] start
  | next {actions : List Action} {machine machine' : Machine} (action : Action)
      (run : Run kernelPanic actions machine)
      (taken : step kernelPanic machine action = some machine') :
      Run kernelPanic (action :: actions) machine'

/-- The thread that runs is in front of its last instruction, which is `cli`. -/
def BeforeCli (machine : Machine) : Prop :=
  ∃ i code, machine.current = some i ∧ machine.panics i = some (code, [.cli])

/-- In this run a switch came where only the `cli` was left. -/
def SwitchedBeforeCli (kernelPanic : List Instruction) (actions : List Action) : Prop :=
  ∃ later next before machine, actions = later ++ .switch next :: before ∧
    Run kernelPanic before machine ∧ BeforeCli machine

/-! ## What the steps do -/

section

variable {kernelPanic : List Instruction} {machine machine' : Machine}

theorem step_switch {next : Option ℕ}
    (taken : step kernelPanic machine (.switch next) = some machine') :
    machine.interrupts = true ∧ machine' = { machine with current := next } := by
  rw [step] at taken
  split_ifs at taken with on
  exact ⟨on, (Option.some.inj taken).symm⟩

theorem step_panic {code : ℤ} (taken : step kernelPanic machine (.panic code) = some machine') :
    ∃ i, machine.current = some i ∧ machine.panics i = none ∧ machine' = { machine with
      panics := Function.update machine.panics i (some (code, kernelPanic)) } := by
  cases current : machine.current with
  | none =>
      rw [step, current] at taken
      exact absurd taken (Option.some_ne_none _).symm
  | some i =>
      rw [step, current] at taken
      dsimp only at taken
      split_ifs at taken with already
      exact ⟨i, rfl, Option.not_isSome_iff_eq_none.mp already, (Option.some.inj taken).symm⟩

theorem step_instruction (taken : step kernelPanic machine .instruction = some machine') :
    (machine.current = none ∧ machine' = { machine with gui := machine.gui.next machine }) ∨
      machine' = machine ∨
      ∃ i code instruction rest, machine.current = some i ∧
        machine.panics i = some (code, instruction :: rest) ∧
        machine' = { execute code machine instruction with
          panics := Function.update machine.panics i (some (code, rest)) } := by
  cases current : machine.current with
  | none =>
      rw [step, current] at taken
      exact .inl ⟨rfl, (Option.some.inj taken).symm⟩
  | some i =>
      right
      rw [step, current] at taken
      have after : threadStep i machine (machine.panics i) = machine' := Option.some.inj taken
      rw [← after]
      rcases panics : machine.panics i with _ | ⟨code, _ | ⟨instruction, rest⟩⟩
      · exact .inl rfl
      · exact .inl rfl
      · exact .inr ⟨i, code, instruction, rest, rfl, panics, rfl⟩

end

/-! ## The version in C -/

/-- The codes in the machine are those of calls: the one of each panic, the one in the variable as
soon as the state tells of it, and the one on the screen. -/
structure CodesCalled (actions : List Action) (machine : Machine) : Prop where
  panics : ∀ i code rest, machine.panics i = some (code, rest) → .panic code ∈ actions
  stored : ∀ i code rest, machine.panics i = some (code, rest) → .storeCode ∉ rest →
    .panic machine.kernelPanicCode ∈ actions
  ordered : ∀ i code rest, machine.panics i = some (code, rest) → rest <:+ kernelPanicC
  state : machine.kernelPanicState ≠ PANIC_NONE → .panic machine.kernelPanicCode ∈ actions
  reading : machine.gui = .reading → machine.kernelPanicState ≠ PANIC_NONE
  shown : ∀ code, machine.gui.Shows code → .panic code ∈ actions

theorem CodesCalled.start : CodesCalled [] start where
  panics := fun _ _ _ none => absurd none (Option.some_ne_none _).symm
  stored := fun _ _ _ none => absurd none (Option.some_ne_none _).symm
  ordered := fun _ _ _ none => absurd none (Option.some_ne_none _).symm
  state := fun differs => absurd rfl differs
  reading := fun reading => MainLoop.noConfusion reading
  shown := fun _ shows => shows.elim (fun same => MainLoop.noConfusion same)
    fun same => MainLoop.noConfusion same

theorem CodesCalled.later {actions : List Action} {machine : Machine}
    (called : CodesCalled actions machine) (action : Action) :
    CodesCalled (action :: actions) machine where
  panics := fun i code rest here => List.mem_cons_of_mem _ (called.panics i code rest here)
  stored := fun i code rest here gone =>
    List.mem_cons_of_mem _ (called.stored i code rest here gone)
  ordered := called.ordered
  state := fun differs => List.mem_cons_of_mem _ (called.state differs)
  reading := called.reading
  shown := fun code shows => List.mem_cons_of_mem _ (called.shown code shows)

/-- What is left of `kernel_panic` behind each of its instructions. -/
theorem rest_of_suffix {instruction : Instruction} {rest : List Instruction}
    (suffix : instruction :: rest <:+ kernelPanicC) :
    instruction = .storeCode ∧ rest = [.storeState, .cli] ∨
      instruction = .storeState ∧ rest = [.cli] ∨ instruction = .cli ∧ rest = [] := by
  simpa [kernelPanicC, List.suffix_cons_iff] using suffix

/-- The thread takes up what is left of its panic. -/
theorem panics_update {panics : ℕ → Option (ℤ × List Instruction)} {i j : ℕ}
    {panic : ℤ × List Instruction} {code : ℤ} {rest : List Instruction}
    (here : Function.update panics i (some panic) j = some (code, rest)) :
    j = i ∧ panic = (code, rest) ∨ j ≠ i ∧ panics j = some (code, rest) := by
  by_cases same : j = i
  · rw [same, Function.update_self] at here
    exact .inl ⟨same, Option.some.inj here⟩
  · rw [Function.update_of_ne same] at here
    exact .inr ⟨same, here⟩

/-- The main loop reads a code only where a panic is. -/
theorem CodesCalled.gui {actions : List Action} {machine : Machine}
    (called : CodesCalled actions machine) :
    CodesCalled actions { machine with gui := machine.gui.next machine } where
  panics := called.panics
  stored := called.stored
  ordered := called.ordered
  state := called.state
  reading := by
    intro reading
    cases gui : machine.gui with
    | polling =>
        intro calm
        rw [gui] at reading
        exact MainLoop.noConfusion ((if_neg (not_not.mpr calm)).symm.trans reading)
    | reading => exact called.reading gui
    | running =>
        rw [gui] at reading
        exact MainLoop.noConfusion reading
    | showing code =>
        rw [gui] at reading
        exact MainLoop.noConfusion reading
    | frozen code =>
        rw [gui] at reading
        exact MainLoop.noConfusion reading
  shown := by
    intro code shows
    rw [MainLoop.Shows] at shows
    cases gui : machine.gui with
    | polling =>
        rw [gui, MainLoop.next] at shows
        split_ifs at shows <;> simp at shows
    | reading =>
        rw [gui, MainLoop.next] at shows
        simp only [MainLoop.showing.injEq, reduceCtorEq, or_false] at shows
        exact shows ▸ called.state (called.reading gui)
    | running =>
        rw [gui, MainLoop.next] at shows
        simp at shows
    | showing code' =>
        rw [gui, MainLoop.next] at shows
        simp only [MainLoop.frozen.injEq, reduceCtorEq, false_or] at shows
        exact called.shown code (.inl (shows ▸ gui))
    | frozen code' =>
        rw [gui, MainLoop.next] at shows
        simp only [MainLoop.frozen.injEq, reduceCtorEq, false_or] at shows
        exact called.shown code (.inr (shows ▸ gui))

/-- A thread runs one instruction of its panic. -/
theorem CodesCalled.execute {actions : List Action} {machine : Machine}
    (called : CodesCalled actions machine) {i : ℕ} {code : ℤ} {instruction : Instruction}
    {rest : List Instruction} (here : machine.panics i = some (code, instruction :: rest)) :
    CodesCalled actions { execute code machine instruction with
      panics := Function.update machine.panics i (some (code, rest)) } := by
  have call := called.panics i code _ here
  have suffix := called.ordered i code _ here
  have shorter : rest <:+ kernelPanicC := (List.suffix_cons ..).trans suffix
  have calls : ∀ j code' rest', Function.update machine.panics i (some (code, rest)) j =
      some (code', rest') → .panic code' ∈ actions := by
    intro j code' rest' panics
    rcases panics_update panics with ⟨-, same⟩ | ⟨-, old⟩
    · exact (Prod.mk.inj same).1 ▸ call
    · exact called.panics j code' rest' old
  have ordered : ∀ j code' rest', Function.update machine.panics i (some (code, rest)) j =
      some (code', rest') → rest' <:+ kernelPanicC := by
    intro j code' rest' panics
    rcases panics_update panics with ⟨-, same⟩ | ⟨-, old⟩
    · exact (Prod.mk.inj same).2 ▸ shorter
    · exact called.ordered j code' rest' old
  rcases rest_of_suffix suffix with ⟨rfl, rfl⟩ | ⟨rfl, rfl⟩ | ⟨rfl, rfl⟩
  · exact ⟨calls, fun _ _ _ _ _ => call, ordered, fun _ => call, called.reading, called.shown⟩
  · have stored := called.stored i code _ here (by decide)
    exact ⟨calls, fun _ _ _ _ _ => stored, ordered, fun _ => stored,
      fun _ => panic_fatal_ne_none, called.shown⟩
  · have stored := called.stored i code _ here (by decide)
    exact ⟨calls, fun _ _ _ _ _ => stored, ordered, called.state, called.reading, called.shown⟩

/-- **A step keeps the codes.** -/
theorem CodesCalled.step {actions : List Action} {machine machine' : Machine}
    (called : CodesCalled actions machine) {action : Action}
    (taken : PanicScreen.step kernelPanicC machine action = some machine') :
    CodesCalled (action :: actions) machine' := by
  have later := called.later action
  cases action with
  | instruction =>
      rcases step_instruction taken with ⟨-, rfl⟩ | rfl | ⟨i, code, instruction, rest, -, here, rfl⟩
      · exact later.gui
      · exact later
      · exact later.execute here
  | panic code =>
      obtain ⟨i, -, -, rfl⟩ := step_panic taken
      refine ⟨?_, ?_, ?_, later.state, later.reading, later.shown⟩
      · intro j code' rest' panics
        rcases panics_update panics with ⟨-, same⟩ | ⟨-, old⟩
        · rw [(Prod.mk.inj same).1]
          exact List.mem_cons_self
        · exact later.panics j code' rest' old
      · intro j code' rest' panics gone
        rcases panics_update panics with ⟨-, same⟩ | ⟨-, old⟩
        · rw [← (Prod.mk.inj same).2] at gone
          exact absurd List.mem_cons_self gone
        · exact later.stored j code' rest' old gone
      · intro j code' rest' panics
        rcases panics_update panics with ⟨-, same⟩ | ⟨-, old⟩
        · exact (Prod.mk.inj same).2 ▸ List.suffix_rfl
        · exact later.ordered j code' rest' old
  | switch next =>
      obtain ⟨-, rfl⟩ := step_switch taken
      exact ⟨later.panics, later.stored, later.ordered, later.state, later.reading, later.shown⟩

/-- The main loop has not seen a panic. -/
def MainLoop.Calm (gui : MainLoop) : Prop := gui = .polling ∨ gui = .running

/-- As long as no switch came in front of a `cli`: there is no panic to see, or a thread that
panics has the processor, for good where the interrupts are off. -/
structure NotSeen (machine : Machine) : Prop where
  calm : machine.gui.Calm
  off : machine.interrupts = false → ∃ i code, machine.current = some i ∧
    machine.panics i = some (code, [])
  state : machine.kernelPanicState = PANIC_NONE ∨ machine.interrupts = false ∨ BeforeCli machine

theorem MainLoop.Calm.next {machine : Machine} (calm : machine.gui.Calm)
    (none : machine.kernelPanicState = PANIC_NONE) : (machine.gui.next machine).Calm := by
  rcases calm with gui | gui
  · rw [gui]
    exact .inr (if_neg (not_not.mpr none))
  · rw [gui]
    exact .inl rfl

/-- **A step is a switch in front of a `cli`, or no panic is seen behind it either.** -/
theorem NotSeen.step {machine machine' : Machine} {actions : List Action}
    (notSeen : NotSeen machine) (called : CodesCalled actions machine) {action : Action}
    (taken : PanicScreen.step kernelPanicC machine action = some machine') :
    ((∃ next, action = .switch next) ∧ BeforeCli machine) ∨ NotSeen machine' := by
  cases action with
  | instruction =>
      right
      rcases step_instruction taken with
        ⟨current, rfl⟩ | rfl | ⟨i, code, instruction, rest, current, here, rfl⟩
      · have on : machine.interrupts ≠ false := fun off => by
          obtain ⟨i, code, other, -⟩ := notSeen.off off
          exact absurd (current.symm.trans other) (Option.some_ne_none i).symm
        have none : machine.kernelPanicState = PANIC_NONE := by
          rcases notSeen.state with none | off | ⟨i, code, other, -⟩
          · exact none
          · exact absurd off on
          · exact absurd (current.symm.trans other) (Option.some_ne_none i).symm
        exact ⟨notSeen.calm.next none, fun off => absurd off on, .inl none⟩
      · exact notSeen
      · have on : machine.interrupts ≠ false := fun off => by
          obtain ⟨j, code', other, done⟩ := notSeen.off off
          obtain rfl := Option.some.inj (current.symm.trans other)
          exact absurd (Prod.mk.inj (Option.some.inj (here.symm.trans done))).2
            (List.cons_ne_nil _ _)
        rcases rest_of_suffix (called.ordered i code _ here) with
          ⟨rfl, rfl⟩ | ⟨rfl, rfl⟩ | ⟨rfl, rfl⟩
        · refine ⟨notSeen.calm, fun off => absurd off on, ?_⟩
          rcases notSeen.state with none | off | ⟨j, code', other, last⟩
          · exact .inl none
          · exact absurd off on
          · obtain rfl := Option.some.inj (current.symm.trans other)
            have same := (Prod.mk.inj (Option.some.inj (here.symm.trans last))).2
            exact absurd same (by decide)
        · refine ⟨notSeen.calm, fun off => absurd off on, .inr (.inr ?_)⟩
          exact ⟨i, code, current, Function.update_self ..⟩
        · refine ⟨notSeen.calm, fun _ => ?_, .inr (.inl rfl)⟩
          exact ⟨i, code, current, Function.update_self ..⟩
  | panic code =>
      right
      obtain ⟨i, current, none, rfl⟩ := step_panic taken
      have absent {code : ℤ} {rest : List Instruction} {j : ℕ} (other : machine.current = some j)
          (here : machine.panics j = some (code, rest)) : False := by
        obtain rfl := Option.some.inj (current.symm.trans other)
        exact Option.some_ne_none _ (here.symm.trans none)
      refine ⟨notSeen.calm, fun off => ?_, ?_⟩
      · obtain ⟨j, code', other, here⟩ := notSeen.off off
        exact (absent other here).elim
      · rcases notSeen.state with calm | off | ⟨j, code', other, here⟩
        · exact .inl calm
        · exact .inr (.inl off)
        · exact (absent other here).elim
  | switch next =>
      obtain ⟨on, rfl⟩ := step_switch taken
      by_cases before : BeforeCli machine
      · exact .inl ⟨⟨next, rfl⟩, before⟩
      · right
        have none : machine.kernelPanicState = PANIC_NONE := by
          rcases notSeen.state with none | off | here
          · exact none
          · exact absurd (on.symm.trans off) (by decide)
          · exact absurd here before
        exact ⟨notSeen.calm, fun off => absurd (on.symm.trans off) (by decide), .inl none⟩

theorem SwitchedBeforeCli.later {kernelPanic : List Instruction} {actions : List Action}
    (switched : SwitchedBeforeCli kernelPanic actions) (action : Action) :
    SwitchedBeforeCli kernelPanic (action :: actions) := by
  obtain ⟨later, next, before, machine, rfl, run, here⟩ := switched
  exact ⟨action :: later, next, before, machine, rfl, run, here⟩

theorem Run.called {actions : List Action} {machine : Machine}
    (run : Run kernelPanicC actions machine) : CodesCalled actions machine := by
  induction run with
  | start => exact .start
  | next action run taken ih => exact ih.step taken

theorem Run.switched_or_notSeen {actions : List Action} {machine : Machine}
    (run : Run kernelPanicC actions machine) :
    SwitchedBeforeCli kernelPanicC actions ∨ NotSeen machine := by
  induction run with
  | start => exact .inr ⟨.inl rfl, fun off => absurd off (by decide), .inl rfl⟩
  | next action run taken ih =>
      rcases ih with switched | notSeen
      · exact .inl (switched.later action)
      · rcases notSeen.step run.called taken with ⟨⟨next, rfl⟩, before⟩ | still
        · exact .inl ⟨[], next, _, _, rfl, run, before⟩
        · exact .inr still

/-- **What the screen shows of the version in C.** In every run, a code that the screen shows is one
with which `kernel_panic` was called, and there was a switch behind the store of the state and in
front of the `cli`. No code is shown if no panic is interrupted there. -/
theorem c_panic_shown {actions : List Action} {machine : Machine}
    (run : Run kernelPanicC actions machine) {code : ℤ} (shows : machine.gui.Shows code) :
    .panic code ∈ actions ∧ SwitchedBeforeCli kernelPanicC actions := by
  refine ⟨run.called.shown code shows, ?_⟩
  rcases run.switched_or_notSeen with switched | notSeen
  · exact switched
  · rcases notSeen.calm with gui | gui <;> rcases shows with same | same <;>
      exact MainLoop.noConfusion (gui.symm.trans same)

/-- A panic with the code 7 is interrupted in front of its `cli`, and shown. -/
theorem panic_seven_shown :
    .panic 7 ∈ [Action.instruction, .instruction, .switch none, .instruction, .instruction,
      .panic 7, .switch (some 0)] ∧
    SwitchedBeforeCli kernelPanicC [.instruction, .instruction, .switch none, .instruction,
      .instruction, .panic 7, .switch (some 0)] := by
  have run : Run kernelPanicC _ _ :=
    .next .instruction (.next .instruction (.next (.switch none) (.next .instruction
      (.next .instruction (.next (.panic 7) (.next (.switch (some 0)) .start rfl) rfl) rfl) rfl)
      rfl) rfl) rfl
  exact c_panic_shown run (.inl rfl)

/-! ## The version in assembler -/

/-- Where the interrupts are on, nothing of any panic was run. -/
structure Untold (machine : Machine) : Prop where
  calm : machine.gui.Calm
  whole : machine.interrupts = true → machine.kernelPanicState = PANIC_NONE ∧
    ∀ i code rest, machine.panics i = some (code, rest) → rest = kernelPanicAsm
  off : machine.interrupts = false → ∃ i, machine.current = some i

theorem Untold.step {machine machine' : Machine} (untold : Untold machine) {action : Action}
    (taken : PanicScreen.step kernelPanicAsm machine action = some machine') : Untold machine' := by
  cases action with
  | instruction =>
      rcases step_instruction taken with
        ⟨current, rfl⟩ | rfl | ⟨i, code, instruction, rest, current, here, rfl⟩
      · have on : machine.interrupts = true := by
          by_contra off
          obtain ⟨i, other⟩ := untold.off ((Bool.not_eq_true _).mp off)
          exact absurd (current.symm.trans other) (Option.some_ne_none i).symm
        exact ⟨untold.calm.next (untold.whole on).1, untold.whole, untold.off⟩
      · exact untold
      · cases interrupts : machine.interrupts with
        | true =>
            obtain ⟨rfl, rfl⟩ := List.cons.inj ((untold.whole interrupts).2 i code _ here)
            exact ⟨untold.calm, fun on => absurd on Bool.false_ne_true, fun _ => ⟨i, current⟩⟩
        | false =>
            have off : (execute code machine instruction).interrupts = false := by
              cases instruction <;> first | exact interrupts | rfl
            refine ⟨?_, fun on => absurd (off.symm.trans on) (by decide), fun _ => ⟨i, ?_⟩⟩
            · cases instruction <;> exact untold.calm
            · cases instruction <;> exact current
  | panic code =>
      obtain ⟨i, current, -, rfl⟩ := step_panic taken
      refine ⟨untold.calm, fun on => ⟨(untold.whole on).1, ?_⟩, untold.off⟩
      intro j code' rest panics
      rcases panics_update panics with ⟨-, same⟩ | ⟨-, old⟩
      · exact (Prod.mk.inj same).2.symm
      · exact (untold.whole on).2 j code' rest old
  | switch next =>
      obtain ⟨on, rfl⟩ := step_switch taken
      exact ⟨untold.calm, untold.whole, fun off => absurd (on.symm.trans off) (by decide)⟩

/-- **The version in assembler is never shown**, in any run: when the state tells of a panic, the
main loop does not run any more. -/
theorem asm_panic_not_shown {actions : List Action} {machine : Machine}
    (run : Run kernelPanicAsm actions machine) (code : ℤ) : ¬ machine.gui.Shows code := by
  have untold : Untold machine := by
    induction run with
    | start =>
        refine ⟨.inl rfl, fun _ => ⟨rfl, fun i code rest none => ?_⟩, fun off => ?_⟩
        · exact absurd none (Option.some_ne_none _).symm
        · exact absurd off (by decide)
    | next action run taken ih => exact ih.step taken
  intro shows
  rcases untold.calm with gui | gui <;> rcases shows with same | same <;>
    exact MainLoop.noConfusion (gui.symm.trans same)

/-- A panic with the code 7 that ran to its end. -/
theorem asm_panic_seven_hidden : ∃ machine : Machine, machine.kernelPanicState = PANIC_FATAL ∧
    machine.kernelPanicCode = 7 ∧ ¬ machine.gui.Shows 7 := by
  have run : Run kernelPanicAsm _ _ :=
    .next .instruction (.next .instruction (.next .instruction (.next (.panic 7)
      (.next (.switch (some 0)) .start rfl) rfl) rfl) rfl) rfl
  exact ⟨_, rfl, rfl, asm_panic_not_shown run 7⟩

end CocosOS.Kernel.PanicScreen
