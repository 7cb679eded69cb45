import Mathlib.Data.List.Basic
import Mathlib.Data.List.Induction

/-!
# The last call for a key

Each call of a store leaves something at one key, and nothing else is changed. After any calls there
is at each key what the last call for it left, and what was there at first if there was none
(`read_calls`).
-/

set_option autoImplicit false

namespace CocosOS.Library.LastCall

variable {State Call Key Value : Type*} [DecidableEq Key]
  {step : State → Call → State} {key : Call → Key} {left : Call → Value}

/-- What the last call for the key left there, if there was one. -/
def lastLeft (key : Call → Key) (left : Call → Value) (calls : List Call) (k : Key) :
    Option Value :=
  (calls.filter fun call => key call = k).getLast?.map left

theorem lastLeft_concat (calls : List Call) (call : Call) (k : Key) :
    lastLeft key left (calls ++ [call]) k =
      if key call = k then some (left call) else lastLeft key left calls k := by
  rw [lastLeft, List.filter_append]
  split_ifs with here
  · have kept : [call].filter (fun call => key call = k) = [call] := by simp [here]
    rw [kept, List.getLast?_concat]
    rfl
  · have none : [call].filter (fun call => key call = k) = [] := by simp [here]
    rw [none, List.append_nil]
    rfl

/-- **The last call for a key counts.** -/
theorem read_calls (read : State → Key → Value) (call : ∀ state call k,
    read (step state call) k = if key call = k then left call else read state k)
    (calls : List Call) (state : State) (k : Key) :
    read (calls.foldl step state) k = (lastLeft key left calls k).getD (read state k) := by
  induction calls using List.reverseRecOn with
  | nil => rfl
  | append_singleton calls last ih =>
      rw [List.foldl_concat, call, lastLeft_concat]
      split_ifs
      · rfl
      · exact ih

end CocosOS.Library.LastCall
