import CocosOS.Library.ByteMemory

/-!
# The context switch

`context_switch` of `switch.asm` is four instructions. It takes its arguments from the stack, as
the C code pushed them: the address at which to save the stack pointer, and the stack pointer to
go on with. The processor here has the registers that the four instructions touch.

Nothing but the twelve bytes under the stack pointer and the word at the first argument changes
in memory (`sameOn_switched`). The word at the first argument becomes the stack pointer at entry
(`load32_switched`); the second argument is loaded and not used, and the stack pointer stays what it
was (`switched_esp`).
-/

set_option autoImplicit false

namespace CocosOS.Scheduler

open Library.ByteMemory

/-! ## The processor -/

/-- The registers used by the switch, and memory. -/
structure Cpu where
  eax : Word
  edx : Word
  esp : Word
  eip : Word
  mem : Mem

inductive Register where
  | eax
  | edx
  | esp
  deriving DecidableEq, Repr

inductive Instruction where
  /-- `mov dst, [esp + displacement]` -/
  | loadStack (dst : Register) (displacement : Word)
  /-- `mov [base], src` -/
  | store (base src : Register)
  | ret
  deriving DecidableEq, Repr

namespace Cpu

def get (cpu : Cpu) : Register → Word
  | .eax => cpu.eax
  | .edx => cpu.edx
  | .esp => cpu.esp

def set (cpu : Cpu) (value : Word) : Register → Cpu
  | .eax => { cpu with eax := value }
  | .edx => { cpu with edx := value }
  | .esp => { cpu with esp := value }

/-- One instruction. -/
def exec (cpu : Cpu) : Instruction → Cpu
  | .loadStack dst displacement => cpu.set (load32 cpu.mem (cpu.esp + displacement)) dst
  | .store base src => { cpu with mem := store32 cpu.mem (cpu.get base) (cpu.get src) }
  | .ret => { cpu with eip := load32 cpu.mem cpu.esp, esp := cpu.esp + 4 }

/-- Instructions in a row. -/
def run (cpu : Cpu) (code : List Instruction) : Cpu := code.foldl exec cpu

def push (cpu : Cpu) (value : Word) : Cpu :=
  { cpu with esp := cpu.esp - 4, mem := store32 cpu.mem (cpu.esp - 4) value }

@[simp] theorem push_esp (cpu : Cpu) (value : Word) : (cpu.push value).esp = cpu.esp - 4 := rfl

@[simp] theorem push_mem (cpu : Cpu) (value : Word) :
    (cpu.push value).mem = store32 cpu.mem (cpu.esp - 4) value := rfl

end Cpu

/-- `switch.asm`. -/
def contextSwitch : List Instruction :=
  [.loadStack .eax 4, .loadStack .edx 8, .store .eax .esp, .ret]

/-- The call from C: the arguments from the last to the first, then the return address. -/
def enterSwitch (returnAddress oldEsp newEsp : Word) (cpu : Cpu) : Cpu :=
  ((cpu.push newEsp).push oldEsp).push returnAddress

/-- The processor when `context_switch` is about to return. -/
def switched (returnAddress oldEsp newEsp : Word) (cpu : Cpu) : Cpu :=
  (enterSwitch returnAddress oldEsp newEsp cpu).run (contextSwitch.take 3)

/-- `context_switch(old_esp, new_esp)`, called and returned from. -/
def callSwitch (returnAddress oldEsp newEsp : Word) (cpu : Cpu) : Cpu :=
  (enterSwitch returnAddress oldEsp newEsp cpu).run contextSwitch

/-! ## What it does -/

variable {returnAddress oldEsp newEsp : Word} {cpu : Cpu}

theorem push_once (esp : Word) : esp - 4 = esp - 12 + 8 := by bv_omega

theorem push_twice (esp : Word) : esp - 4 - 4 = esp - 12 + 4 := by bv_omega

theorem push_thrice (esp : Word) : esp - 4 - 4 - 4 = esp - 12 := by bv_omega

theorem popped (esp : Word) : esp - 12 + 4 = esp - 8 := by bv_omega

theorem enterSwitch_esp : (enterSwitch returnAddress oldEsp newEsp cpu).esp = cpu.esp - 12 := by
  rw [enterSwitch, Cpu.push_esp, Cpu.push_esp, Cpu.push_esp, push_thrice]

/-- **The stack pointer at the return is the one at entry.** -/
theorem switched_esp : (switched returnAddress oldEsp newEsp cpu).esp = cpu.esp - 12 := by
  have same : (switched returnAddress oldEsp newEsp cpu).esp =
      (enterSwitch returnAddress oldEsp newEsp cpu).esp := rfl
  rw [same, enterSwitch_esp]

/-- After the return, the stack holds the two arguments. -/
theorem callSwitch_esp : (callSwitch returnAddress oldEsp newEsp cpu).esp = cpu.esp - 8 := by
  have returned : (callSwitch returnAddress oldEsp newEsp cpu).esp =
      (switched returnAddress oldEsp newEsp cpu).esp + 4 := rfl
  rw [returned, switched_esp]
  exact popped cpu.esp

/-- The words that the call leaves on the stack. -/
theorem enterSwitch_mem :
    (enterSwitch returnAddress oldEsp newEsp cpu).mem =
      store32 (store32 (store32 cpu.mem (cpu.esp - 12 + 8) newEsp) (cpu.esp - 12 + 4) oldEsp)
        (cpu.esp - 12) returnAddress := by
  rw [enterSwitch, Cpu.push_mem, Cpu.push_mem, Cpu.push_mem, Cpu.push_esp, Cpu.push_esp,
    Cpu.push_esp, push_thrice, push_twice, push_once]

section Frame

variable (room : 12 ≤ cpu.esp.toNat)

include room

theorem frame_toNat : (cpu.esp - 12).toNat = cpu.esp.toNat - 12 := by bv_omega

/-- The first argument. -/
theorem enterSwitch_oldEsp :
    load32 (enterSwitch returnAddress oldEsp newEsp cpu).mem (cpu.esp - 12 + 4) = oldEsp := by
  have address := frame_toNat room
  rw [enterSwitch_mem, load32_store32_of_apart (by bv_omega) (by bv_omega) (by bv_omega),
    load32_store32]

theorem switched_mem :
    (switched returnAddress oldEsp newEsp cpu).mem =
      store32 (enterSwitch returnAddress oldEsp newEsp cpu).mem oldEsp (cpu.esp - 12) := by
  have saved : (switched returnAddress oldEsp newEsp cpu).mem =
      store32 (enterSwitch returnAddress oldEsp newEsp cpu).mem
        (load32 (enterSwitch returnAddress oldEsp newEsp cpu).mem
          ((enterSwitch returnAddress oldEsp newEsp cpu).esp + 4))
        (enterSwitch returnAddress oldEsp newEsp cpu).esp := rfl
  rw [saved, enterSwitch_esp, enterSwitch_oldEsp room]

/-- **The stack pointer at entry is saved.** -/
theorem load32_switched :
    load32 (switched returnAddress oldEsp newEsp cpu).mem oldEsp = cpu.esp - 12 := by
  rw [switched_mem room, load32_store32]

/-- **The rest of memory is left alone.** -/
theorem sameOn_switched {start : Word} {length : ℕ} (fits : oldEsp.toNat + 4 ≤ 2 ^ 32)
    (frame : Apart (cpu.esp - 12) 12 start length) (saved : Apart oldEsp 4 start length) :
    SameOn start length cpu.mem (switched returnAddress oldEsp newEsp cpu).mem := by
  have address := frame_toNat room
  have apart : ∀ offset : Word, offset.toNat + 4 ≤ 12 →
      Apart (cpu.esp - 12 + offset) 4 start length := by
    intro offset inside x covered
    have inFrame : Covers (cpu.esp - 12) 12 x := by
      unfold Covers at covered ⊢
      bv_omega
    exact frame x inFrame
  have lowest : Apart (cpu.esp - 12) 4 start length := fun x covered =>
    frame x ⟨covered.1, by have inside := covered.2; omega⟩
  rw [switched_mem room, enterSwitch_mem]
  have pushed := sameOn_store32 (m := cpu.mem) (v := newEsp) (by bv_omega) (apart 8 (by decide))
  have both := pushed.trans (sameOn_store32 (v := oldEsp) (by bv_omega) (apart 4 (by decide)))
  have entered := both.trans (sameOn_store32 (v := returnAddress) (by bv_omega) lowest)
  exact entered.trans (sameOn_store32 fits saved)

end Frame

end CocosOS.Scheduler
