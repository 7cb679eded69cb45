import Mathlib.Data.List.Chain
import Mathlib.Data.Int.Notation
import Mathlib.Tactic.Common

/-!
# The snake

The game moves the head of the snake by one cell in the direction of the last key, and takes the last
cell of the body away unless the head is on the food. Nothing ends the game: the snake leaves the
board and goes through itself.

The cells where the head has been make a trail that only the keys tell. After any run the body is the
newest part of the trail, of one cell more than there was food, so that no update finds an empty
body and each cell of it is next to the one before (`cuerpo_is_rastro`).
-/

set_option autoImplicit false

namespace CocosOS.Apps.Snake

/-! ## The source -/

structure Celda where
  x : ℤ
  y : ℤ
  deriving DecidableEq, Repr

structure Juego where
  cuerpo : List Celda
  dx : ℤ
  dy : ℤ
  comida : Celda
  puntos : ℕ
  deriving DecidableEq, Repr

def inicio : Juego := ⟨[⟨10, 10⟩], 1, 0, ⟨20, 15⟩, 0⟩

/-- `Snake.actualizar`, with what the two calls of `math.random` would give. It is an error where the
body has no first cell. -/
def actualizar (azar : Celda) (juego : Juego) : Option Juego :=
  match juego.cuerpo with
  | [] => none
  | primera :: _ =>
    let cabeza : Celda := ⟨primera.x + juego.dx, primera.y + juego.dy⟩
    let juego := { juego with cuerpo := cabeza :: juego.cuerpo }
    some <|
      if cabeza.x = juego.comida.x ∧ cabeza.y = juego.comida.y then
        { juego with puntos := juego.puntos + 10, comida := azar }
      else { juego with cuerpo := juego.cuerpo.dropLast }

def tecla (c : Char) (juego : Juego) : Juego :=
  let juego := if c = 'w' then { juego with dx := 0, dy := -1 } else juego
  let juego := if c = 's' then { juego with dx := 0, dy := 1 } else juego
  let juego := if c = 'a' then { juego with dx := -1, dy := 0 } else juego
  if c = 'd' then { juego with dx := 1, dy := 0 } else juego

/-! ## Runs -/

inductive Evento where
  | tecla (c : Char)
  | actualizar (azar : Celda)
  deriving DecidableEq, Repr

def paso (juego : Juego) : Evento → Option Juego
  | .tecla c => some (tecla c juego)
  | .actualizar azar => actualizar azar juego

def jugar (eventos : List Evento) : Option Juego := eventos.foldlM paso inicio

/-! ## The trail -/

/-- The direction that a key gives. -/
def giro (c : Char) (direccion : ℤ × ℤ) : ℤ × ℤ :=
  if c = 'w' then (0, -1)
  else if c = 's' then (0, 1)
  else if c = 'a' then (-1, 0)
  else if c = 'd' then (1, 0)
  else direccion

/-- Where the head is, where it has been before, the last cell first, and where it goes next. -/
structure Rastro where
  cabeza : Celda
  anteriores : List Celda
  direccion : ℤ × ℤ
  deriving DecidableEq, Repr

namespace Rastro

def celdas (rastro : Rastro) : List Celda := rastro.cabeza :: rastro.anteriores

def seguir (rastro : Rastro) : Evento → Rastro
  | .tecla c => { rastro with direccion := giro c rastro.direccion }
  | .actualizar _ =>
    { rastro with
      cabeza := ⟨rastro.cabeza.x + rastro.direccion.1, rastro.cabeza.y + rastro.direccion.2⟩
      anteriores := rastro.celdas }

end Rastro

def rastro (eventos : List Evento) : Rastro := eventos.foldl Rastro.seguir ⟨⟨10, 10⟩, [], (1, 0)⟩

/-- The cells have a side in common. -/
def Vecinas (a b : Celda) : Prop := (a.x - b.x).natAbs + (a.y - b.y).natAbs = 1

/-- The trail goes from each cell to one next to it, and goes on so. -/
structure Rastro.Continuo (rastro : Rastro) : Prop where
  vecinas : rastro.celdas.IsChain Vecinas
  unidad : rastro.direccion.1.natAbs + rastro.direccion.2.natAbs = 1

theorem Rastro.Continuo.seguir {rastro : Rastro} (continuo : rastro.Continuo) (evento : Evento) :
    (rastro.seguir evento).Continuo := by
  cases evento with
  | tecla c =>
      refine ⟨continuo.vecinas, ?_⟩
      rw [Rastro.seguir, giro]
      split_ifs
      · rfl
      · rfl
      · rfl
      · rfl
      · exact continuo.unidad
  | actualizar azar =>
      refine ⟨List.isChain_cons_cons.mpr ⟨?_, continuo.vecinas⟩, continuo.unidad⟩
      have resta (a d : ℤ) : a + d - a = d := by omega
      rw [Vecinas, Rastro.seguir, resta, resta]
      exact continuo.unidad

theorem continuo_rastro (eventos : List Evento) : (rastro eventos).Continuo := by
  induction eventos using List.reverseRecOn with
  | nil => exact ⟨List.isChain_singleton _, rfl⟩
  | append_singleton eventos evento ih =>
      rw [rastro, List.foldl_concat]
      exact ih.seguir evento

/-! ## The body -/

/-- The body is the newest part of the trail. -/
structure Sigue (juego : Juego) (rastro : Rastro) : Prop where
  direccion : (juego.dx, juego.dy) = rastro.direccion
  cuerpo : juego.cuerpo = rastro.celdas.take (1 + juego.puntos / 10)
  entero : 1 + juego.puntos / 10 ≤ rastro.celdas.length

theorem tecla_eq (c : Char) (juego : Juego) : tecla c juego =
    { juego with dx := (giro c (juego.dx, juego.dy)).1, dy := (giro c (juego.dx, juego.dy)).2 } := by
  rw [tecla, giro]
  by_cases w : c = 'w'
  · subst w
    rfl
  by_cases s : c = 's'
  · subst s
    rfl
  by_cases a : c = 'a'
  · subst a
    rfl
  by_cases d : c = 'd'
  · subst d
    rfl
  · simp only [w, s, a, d, if_false]

theorem Sigue.tecla {juego : Juego} {rastro : Rastro} (sigue : Sigue juego rastro) (c : Char) :
    Sigue (Snake.tecla c juego) (rastro.seguir (.tecla c)) := by
  rw [tecla_eq]
  refine ⟨?_, sigue.cuerpo, sigue.entero⟩
  rw [Rastro.seguir, ← sigue.direccion]

/-- An update takes one more cell of the trail, unless the head finds food. -/
theorem Sigue.actualizar {juego : Juego} {rastro : Rastro} (sigue : Sigue juego rastro)
    (azar : Celda) : ∃ despues, Snake.actualizar azar juego = some despues ∧
      Sigue despues (rastro.seguir (.actualizar azar)) := by
  have direccion := sigue.direccion
  have entero := sigue.entero
  have primera : juego.cuerpo = rastro.cabeza :: rastro.anteriores.take (juego.puntos / 10) := by
    rw [sigue.cuerpo, Rastro.celdas, Nat.add_comm, List.take_succ_cons]
  have cabeza : (rastro.seguir (.actualizar azar)).cabeza =
      ⟨rastro.cabeza.x + juego.dx, rastro.cabeza.y + juego.dy⟩ := by
    rw [Rastro.seguir, ← direccion]
  have celdas : (rastro.seguir (.actualizar azar)).celdas =
      ⟨rastro.cabeza.x + juego.dx, rastro.cabeza.y + juego.dy⟩ :: rastro.celdas := by
    rw [Rastro.celdas, cabeza]
    rfl
  have largo : (rastro.seguir (.actualizar azar)).celdas.length = rastro.celdas.length + 1 := by
    rw [celdas, List.length_cons]
  have comido : (juego.puntos + 10) / 10 = juego.puntos / 10 + 1 :=
    Nat.add_div_right _ (by decide)
  unfold Snake.actualizar
  rw [primera]
  refine ⟨_, rfl, ?_⟩
  split_ifs with come
  · refine ⟨direccion, ?_, ?_⟩
    · have mas : 1 + (juego.puntos / 10 + 1) = juego.puntos / 10 + 1 + 1 := Nat.add_comm ..
      dsimp only
      rw [celdas, comido, mas, List.take_succ_cons, Rastro.celdas, List.take_succ_cons]
    · dsimp only
      rw [largo, comido]
      omega
  · refine ⟨direccion, ?_, ?_⟩
    · have ultima : (rastro.celdas.take (1 + juego.puntos / 10)).dropLast =
          rastro.celdas.take (juego.puntos / 10) := by
        rw [List.dropLast_eq_take, List.length_take_of_le entero, List.take_take]
        congr 1
        omega
      rw [sigue.cuerpo] at primera
      rw [celdas, Nat.add_comm 1, List.take_succ_cons, ← ultima, primera]
      rfl
    · dsimp only
      rw [largo]
      omega

theorem jugar_concat (eventos : List Evento) (evento : Evento) :
    jugar (eventos ++ [evento]) = (jugar eventos).bind fun juego => paso juego evento := by
  rw [jugar, List.foldlM_append]
  refine congrArg _ (funext fun juego => ?_)
  exact bind_pure _

/-- **The body is the newest part of the trail**, and no run ends. -/
theorem cuerpo_is_rastro (eventos : List Evento) : ∃ juego, jugar eventos = some juego ∧
    juego.cuerpo = (rastro eventos).celdas.take (1 + juego.puntos / 10) ∧
    juego.cuerpo.length = 1 + juego.puntos / 10 ∧ juego.cuerpo.IsChain Vecinas := by
  suffices sigue : ∃ juego, jugar eventos = some juego ∧ Sigue juego (rastro eventos) by
    obtain ⟨juego, jugado, sigue⟩ := sigue
    refine ⟨juego, jugado, sigue.cuerpo, ?_, ?_⟩
    · rw [sigue.cuerpo, List.length_take_of_le sigue.entero]
    · rw [sigue.cuerpo]
      exact (continuo_rastro eventos).vecinas.take _
  induction eventos using List.reverseRecOn with
  | nil => exact ⟨inicio, rfl, rfl, rfl, by decide⟩
  | append_singleton eventos evento ih =>
      obtain ⟨juego, jugado, sigue⟩ := ih
      rw [jugar_concat, jugado, rastro, List.foldl_concat]
      cases evento with
      | tecla c => exact ⟨_, rfl, sigue.tecla c⟩
      | actualizar azar => exact sigue.actualizar azar

end CocosOS.Apps.Snake
