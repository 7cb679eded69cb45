import Mathlib.Data.Set.Insert
import Mathlib.Tactic.Common

/-!
# A cache of a map

A cache remembers pairs of a map that may change under it. It is coherent while each pair it
remembers is still one of the map. Remembering a pair of the map and forgetting pairs keep it
coherent (`Coherent.insert`, `Coherent.mono`), and so does every change of the map that keeps the
pairs it has (`Coherent.extend`). Removing a key from the map is the one change that can make a
pair stale, and it does so exactly if the cache remembers a pair of that key
(`Coherent.remove_iff`).
-/

set_option autoImplicit false

namespace CocosOS.Library.CachedMap

variable {Key Value : Type*} {cache : Set (Key × Value)} {map map' : Key → Option Value}

/-- Every pair of the cache is one of the map. -/
def Coherent (cache : Set (Key × Value)) (map : Key → Option Value) : Prop :=
  ∀ key value, (key, value) ∈ cache → map key = some value

theorem coherent_empty (map : Key → Option Value) : Coherent ∅ map :=
  fun _ _ member => absurd member (Set.notMem_empty _)

namespace Coherent

/-- Remember a pair of the map. -/
theorem insert (coherent : Coherent cache map) {key : Key} {value : Value}
    (found : map key = some value) : Coherent (Insert.insert (key, value) cache) map := by
  intro key' value' member
  rcases Set.mem_insert_iff.mp member with same | old
  · obtain ⟨rfl, rfl⟩ := Prod.mk.inj same
    exact found
  · exact coherent key' value' old

/-- Forget pairs. -/
theorem mono (coherent : Coherent cache map) {fewer : Set (Key × Value)}
    (subset : fewer ⊆ cache) : Coherent fewer map :=
  fun key value member => coherent key value (subset member)

/-- A map that has all pairs of the old one may take its place. -/
theorem extend (coherent : Coherent cache map)
    (more : ∀ key value, map key = some value → map' key = some value) : Coherent cache map' :=
  fun key value member => more key value (coherent key value member)

/-- **Removing a key leaves a stale pair exactly if the cache remembers one of the key.** -/
theorem remove_iff (coherent : Coherent cache map) {key : Key} (removed : map' key = none)
    (others : ∀ other, other ≠ key → map' other = map other) :
    Coherent cache map' ↔ ∀ value, (key, value) ∉ cache := by
  constructor
  · intro still value member
    have found := still key value member
    rw [removed] at found
    contradiction
  · intro forgotten key' value' member
    have ne : key' ≠ key := by
      rintro rfl
      exact forgotten value' member
    rw [others key' ne]
    exact coherent key' value' member

end Coherent

end CocosOS.Library.CachedMap
