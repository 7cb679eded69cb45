import CocosOS.Library.LuaValue
import Mathlib.Data.List.Infix

/-!
# The history of the navigator

`cargar_pagina` puts every page it loads at the end of the history and goes there, also the pages
that the back and forward buttons load. So a click on back does not go back: it makes the page
before the last one of the history, and there is no way forward from there.

The navigator agrees with a list of pages with a cursor exactly as long as back is not clicked
after a second visit (`agrees_iff`).
-/

set_option autoImplicit false

namespace CocosOS.Apps.BrowserHistory

open Library.CString Library.Lua

/-! ## The navigator -/

/-- What the navigator shows and what it remembers. Pages are counted from 1. -/
structure Navegador where
  url : Text
  barraUrl : Text
  contenido : Text
  historial : List Text
  posicionHistorial : ℕ

def Navegador.start : Navegador := ⟨[], [], [], [], 0⟩

/-- The address that is loaded for what stands in the address bar. -/
def conEsquema (direccion : Text) : Text :=
  if literal "://" <:+: direccion then direccion else literal "http://" ++ direccion

/-- `cargar_pagina`, where `httpGet` is what the network answers. -/
def cargarPagina (httpGet : Text → Option Text) (direccion : Text) (nav : Navegador) : Navegador :=
  if direccion = [] then nav
  else
    let direccion := conEsquema direccion
    let historial := nav.historial ++ [direccion]
    { url := direccion
      barraUrl := direccion
      contenido := (httpGet direccion).getD (literal "Error al cargar la pagina")
      historial := historial
      posicionHistorial := historial.length }

/-- A button, told in the window. -/
structure Boton where
  x : ℤ
  y : ℤ
  ancho : ℤ
  alto : ℤ

def botonAtras : Boton := ⟨10, 40, 30, 24⟩

def botonAdelante : Boton := ⟨45, 40, 30, 24⟩

def botonIr : Boton := ⟨625, 40, 65, 24⟩

/-- The place of the window. -/
def ventanaX : ℤ := 50

def ventanaY : ℤ := 50

/-- A click at a point, with what stands in the address bar. -/
structure Click where
  x : ℤ
  y : ℤ
  texto : Text

/-- The click is on the button. -/
def Click.On (click : Click) (boton : Boton) : Prop :=
  let rx := click.x - ventanaX
  let ry := click.y - ventanaY
  rx ≥ boton.x ∧ rx ≤ boton.x + boton.ancho ∧ ry ≥ boton.y ∧ ry ≤ boton.y + boton.alto

instance (click : Click) (boton : Boton) : Decidable (click.On boton) :=
  inferInstanceAs (Decidable (_ ∧ _ ∧ _ ∧ _))

/-- `cargar_pagina(historial[posicion])`, which raises an error where there is no such page. -/
def cargarPosicion (httpGet : Text → Option Text) (nav : Navegador) : Option Navegador :=
  match nav.posicionHistorial with
  | 0 => none
  | posicion + 1 => nav.historial[posicion]?.map fun direccion => cargarPagina httpGet direccion nav

/-- The first branch of `click_boton`. -/
def atras (httpGet : Text → Option Text) (click : Click) (nav : Navegador) : Option Navegador :=
  if click.On botonAtras ∧ nav.posicionHistorial > 1 then
    cargarPosicion httpGet { nav with posicionHistorial := nav.posicionHistorial - 1 }
  else some nav

/-- The second branch of `click_boton`. -/
def adelante (httpGet : Text → Option Text) (click : Click) (nav : Navegador) :
    Option Navegador :=
  if click.On botonAdelante ∧ nav.posicionHistorial < nav.historial.length then
    cargarPosicion httpGet { nav with posicionHistorial := nav.posicionHistorial + 1 }
  else some nav

/-- `click_boton`. -/
def clickBoton (httpGet : Text → Option Text) (click : Click) (nav : Navegador) :
    Option Navegador := do
  let nav ← atras httpGet click nav
  let nav ← adelante httpGet click nav
  return if click.On botonIr then cargarPagina httpGet nav.barraUrl nav else nav

/-- A click, with the text that was typed into the address bar before. -/
def clickAt (httpGet : Text → Option Text) (nav : Navegador) (click : Click) : Option Navegador :=
  clickBoton httpGet click { nav with barraUrl := click.texto }

/-- The navigator after clicks, the first one first. -/
def navRun (httpGet : Text → Option Text) (clicks : List Click) : Option Navegador :=
  clicks.foldlM (clickAt httpGet) .start

/-! ## Pages with a cursor -/

/-- A list of pages and the number of the current one, which is 0 where there is none. -/
structure Pages where
  list : List Text
  cursor : ℕ

namespace Pages

def start : Pages := ⟨[], 0⟩

def visit (page : Text) (pages : Pages) : Pages := ⟨pages.list ++ [page], pages.list.length + 1⟩

def back (pages : Pages) : Pages :=
  if 1 < pages.cursor then { pages with cursor := pages.cursor - 1 } else pages

def forward (pages : Pages) : Pages :=
  if pages.cursor < pages.list.length then { pages with cursor := pages.cursor + 1 } else pages

def current (pages : Pages) : Text := (([] : Text) :: pages.list).getD pages.cursor []

end Pages

/-- The click visits an address. -/
def Click.Visits (click : Click) : Prop := click.On botonIr ∧ click.texto ≠ []

instance : DecidablePred Click.Visits := fun _ => inferInstanceAs (Decidable (_ ∧ _))

@[simp] theorem Pages.list_back (pages : Pages) : pages.back.list = pages.list := by
  rw [Pages.back]
  split_ifs <;> rfl

@[simp] theorem Pages.list_forward (pages : Pages) : pages.forward.list = pages.list := by
  rw [Pages.forward]
  split_ifs <;> rfl

/-- What a click does to the pages. -/
def Pages.click (pages : Pages) (click : Click) : Pages :=
  if click.Visits then pages.visit (conEsquema click.texto)
  else if click.On botonAtras then pages.back
  else if click.On botonAdelante then pages.forward
  else pages

def pagesRun (clicks : List Click) : Pages := clicks.foldl Pages.click .start

/-- The navigator shows the current page, and its buttons are enabled as they should. -/
structure Agrees (nav : Navegador) (pages : Pages) : Prop where
  current : nav.url = pages.current
  back : nav.posicionHistorial > 1 ↔ pages.cursor > 1
  forward : nav.posicionHistorial < nav.historial.length ↔ pages.cursor < pages.list.length

/-- In every state of the run the navigator agrees with the pages. -/
def AlwaysAgrees (httpGet : Text → Option Text) (clicks : List Click) : Prop :=
  ∀ before, before <+: clicks →
    ∃ nav, navRun httpGet before = some nav ∧ Agrees nav (pagesRun before)

/-- Back is clicked only while there was at most one visit. -/
def NoWayBack (clicks : List Click) : Prop :=
  ∀ before click, before ++ [click] <+: clicks → click.On botonAtras →
    before.countP (fun click => click.Visits) ≤ 1

/-! ## Buttons -/

/-- No click is on two buttons. -/
theorem Click.not_on_atras {click : Click} (on : click.On botonIr ∨ click.On botonAdelante) :
    ¬ click.On botonAtras := by
  simp only [Click.On, botonIr, botonAdelante, botonAtras] at on ⊢
  omega

theorem Click.not_on_adelante {click : Click} (on : click.On botonIr) :
    ¬ click.On botonAdelante := by
  simp only [Click.On, botonIr, botonAdelante] at on ⊢
  omega

theorem conEsquema_ne_nil {direccion : Text} (some : direccion ≠ []) :
    conEsquema direccion ≠ [] := by
  rw [conEsquema]
  split_ifs
  · exact some
  · exact List.append_ne_nil_of_left_ne_nil (by decide) _

theorem cargarPosicion_succ {httpGet : Text → Option Text} {nav : Navegador} {index : ℕ}
    (inside : index < nav.historial.length) (here : nav.posicionHistorial = index + 1) :
    cargarPosicion httpGet nav = some (cargarPagina httpGet nav.historial[index] nav) := by
  rw [cargarPosicion, here]
  dsimp only
  rw [List.getElem?_eq_getElem inside, Option.map_some]

/-! ## Steps -/

/-- The navigator has the pages, and both are at the last one. -/
structure AtLast (nav : Navegador) (pages : Pages) : Prop where
  historial : nav.historial = pages.list
  posicion : nav.posicionHistorial = pages.list.length
  cursor : pages.cursor = pages.list.length
  url : nav.url = pages.current
  nonempty : ∀ page ∈ pages.list, page ≠ []

namespace AtLast

variable {nav : Navegador} {pages : Pages} (same : AtLast nav pages)
  {httpGet : Text → Option Text} {click : Click}
include same

theorem agrees : Agrees nav pages where
  current := same.url
  back := by rw [same.posicion, same.cursor]
  forward := by rw [same.posicion, same.cursor, same.historial]

/-- Forward is not enabled. -/
theorem adelante_eq : adelante httpGet click nav = some nav := by
  refine if_neg fun both => ?_
  have less := both.2
  rw [same.posicion, same.historial] at less
  exact Nat.lt_irrefl _ less

theorem forward_eq : pages.forward = pages := if_neg same.cursor.not_lt

theorem back_eq (few : pages.list.length ≤ 1) : pages.back = pages := by
  refine if_neg fun more => ?_
  rw [same.cursor] at more
  exact absurd few more.not_ge

/-- Loading a page keeps both at the last one. -/
theorem visit {direccion : Text} (some : direccion ≠ []) :
    AtLast (cargarPagina httpGet direccion nav) (pages.visit (conEsquema direccion)) := by
  have loaded : cargarPagina httpGet direccion nav = ⟨conEsquema direccion, conEsquema direccion,
      (httpGet (conEsquema direccion)).getD (literal "Error al cargar la pagina"),
      nav.historial ++ [conEsquema direccion],
      (nav.historial ++ [conEsquema direccion]).length⟩ := if_neg some
  rw [loaded, same.historial]
  refine ⟨rfl, rfl, ?_, ?_, fun page member => ?_⟩
  · rw [Pages.visit, List.length_append, List.length_singleton]
  · simp [Pages.current, Pages.visit]
  · rcases List.mem_append.mp member with old | new
    · exact same.nonempty page old
    · rw [List.mem_singleton.mp new]
      exact conEsquema_ne_nil some

/-- **A click that does not go back keeps both at the last page.** -/
theorem step (noBack : click.On botonAtras → pages.list.length ≤ 1) :
    ∃ nav', clickAt httpGet nav click = some nav' ∧ AtLast nav' (pages.click click) := by
  have same' : AtLast { nav with barraUrl := click.texto } pages :=
    ⟨same.historial, same.posicion, same.cursor, same.url, same.nonempty⟩
  have stays : atras httpGet click { nav with barraUrl := click.texto } =
      some { nav with barraUrl := click.texto } := by
    refine if_neg fun both => ?_
    have more := both.2
    have few := noBack both.1
    rw [same'.posicion] at more
    exact absurd few more.not_ge
  rw [clickAt, clickBoton, stays, Option.bind_eq_bind, Option.bind_some, same'.adelante_eq,
    Option.bind_some]
  refine ⟨_, rfl, ?_⟩
  by_cases ir : click.On botonIr
  · rw [if_pos ir]
    by_cases empty : click.texto = []
    · have quiet : pages.click click = pages := by
        rw [Pages.click, if_neg fun visits => visits.2 empty, if_neg (Click.not_on_atras (.inl ir)),
          if_neg (Click.not_on_adelante ir)]
      rw [cargarPagina, if_pos empty, quiet]
      exact same'
    · rw [Pages.click, if_pos ⟨ir, empty⟩]
      exact same'.visit empty
  · have quiet : pages.click click = pages := by
      rw [Pages.click, if_neg fun visits => ir visits.1]
      split_ifs with back
      · exact same.back_eq (noBack back)
      · exact same.forward_eq
      · rfl
    rw [if_neg ir, quiet]
    exact same'

/-- **Where back goes back, the navigator and the pages disagree on the way forward.** -/
theorem not_agrees_back (back : click.On botonAtras) (many : 1 < pages.list.length)
    {nav' : Navegador} (clicked : clickAt httpGet nav click = some nav') :
    ¬ Agrees nav' (pages.click click) := by
  have notIr : ¬ click.On botonIr := fun ir => Click.not_on_atras (.inl ir) back
  have notAdelante : ¬ click.On botonAdelante := fun on => Click.not_on_atras (.inr on) back
  obtain ⟨index, length⟩ := Nat.exists_eq_add_of_le' many
  have inside : index < nav.historial.length := by
    rw [same.historial]
    omega
  -- the page before the last one is loaded as if it were new
  have loaded : atras httpGet click { nav with barraUrl := click.texto } =
      some (cargarPagina httpGet nav.historial[index]
        { nav with barraUrl := click.texto, posicionHistorial := index + 1 }) := by
    have more : nav.posicionHistorial > 1 := same.posicion.symm ▸ many
    have before : nav.posicionHistorial - 1 = index + 1 := by
      rw [same.posicion, length]
      rfl
    rw [atras, if_pos ⟨back, more⟩]
    dsimp only
    rw [before]
    have there : index < ({ nav with
        barraUrl := click.texto, posicionHistorial := index + 1 } : Navegador).historial.length :=
      inside
    exact cargarPosicion_succ there rfl
  have page : nav.historial[index] ≠ [] :=
    same.nonempty _ (same.historial ▸ List.getElem_mem inside)
  have onward : (pages.click click).cursor < (pages.click click).list.length := by
    rw [Pages.click, if_neg fun visits => notIr visits.1, if_pos back, Pages.back,
      if_pos (same.cursor.symm ▸ many)]
    dsimp only
    rw [same.cursor]
    omega
  rw [clickAt, clickBoton, loaded, Option.bind_eq_bind, Option.bind_some, adelante,
    if_neg fun both => notAdelante both.1, Option.bind_some, if_neg notIr, cargarPagina,
    if_neg page] at clicked
  obtain rfl := Option.some.inj clicked
  intro agrees
  exact Nat.lt_irrefl _ (agrees.forward.mpr onward)

end AtLast

/-! ## Runs -/

variable {httpGet : Text → Option Text}

theorem navRun_concat (clicks : List Click) (click : Click) :
    navRun httpGet (clicks ++ [click]) =
      (navRun httpGet clicks).bind fun nav => clickAt httpGet nav click := by
  rw [navRun, List.foldlM_append]
  refine congrArg _ (funext fun nav => ?_)
  exact bind_pure _

theorem pagesRun_concat (clicks : List Click) (click : Click) :
    pagesRun (clicks ++ [click]) = (pagesRun clicks).click click := List.foldl_concat ..

theorem atLast_start : AtLast .start .start where
  historial := rfl
  posicion := rfl
  cursor := rfl
  url := rfl
  nonempty _ member := absurd member List.not_mem_nil

/-- The pages are the visited ones. -/
theorem length_pagesRun (clicks : List Click) :
    (pagesRun clicks).list.length = clicks.countP fun click => click.Visits := by
  induction clicks using List.reverseRecOn with
  | nil => rfl
  | append_singleton clicks click ih =>
      rw [pagesRun_concat, List.countP_append, List.countP_singleton, ← ih, Pages.click]
      by_cases visits : click.Visits
      · rw [if_pos visits, if_pos (decide_eq_true visits), Pages.visit, List.length_append,
          List.length_singleton]
      · rw [if_neg visits, if_neg (mt of_decide_eq_true visits)]
        split_ifs
        · rw [Pages.list_back]
          rfl
        · rw [Pages.list_forward]
          rfl
        · rfl

/-- **While back is clicked only after one visit at most, both are at the last page.** -/
theorem atLast_of_noWayBack (httpGet : Text → Option Text) {clicks : List Click}
    (noWay : NoWayBack clicks) :
    ∃ nav, navRun httpGet clicks = some nav ∧ AtLast nav (pagesRun clicks) := by
  induction clicks using List.reverseRecOn with
  | nil => exact ⟨_, rfl, atLast_start⟩
  | append_singleton clicks click ih =>
      obtain ⟨nav, run, same⟩ := ih fun before other inside =>
        noWay before other (inside.trans (List.prefix_append ..))
      rw [navRun_concat, run, pagesRun_concat]
      refine same.step fun back => ?_
      rw [length_pagesRun]
      exact noWay clicks click List.prefix_rfl back

/-- **The navigator agrees with a list of pages with a cursor exactly if back is clicked only while
there was at most one visit.** -/
theorem agrees_iff (clicks : List Click) : AlwaysAgrees httpGet clicks ↔ NoWayBack clicks := by
  constructor
  · intro agrees
    induction clicks using List.reverseRecOn with
    | nil =>
        intro before click inside
        exact absurd (List.prefix_nil.mp inside)
          (List.append_ne_nil_of_right_ne_nil before (List.cons_ne_nil _ _))
    | append_singleton clicks last ih =>
        have earlier := ih fun before inside => agrees before (inside.trans (List.prefix_append ..))
        intro before click inside back
        rcases List.prefix_concat_iff.mp inside with same | shorter
        · obtain ⟨rfl, one⟩ := List.append_inj' same rfl
          obtain rfl := List.singleton_inj.mp one
          by_contra many
          obtain ⟨nav, run, atLast⟩ := atLast_of_noWayBack httpGet earlier
          obtain ⟨nav', run', agree⟩ := agrees _ List.prefix_rfl
          rw [navRun_concat, run] at run'
          rw [pagesRun_concat] at agree
          rw [← length_pagesRun] at many
          exact atLast.not_agrees_back back (Nat.lt_of_not_le many) run' agree
        · exact earlier before click shorter back
  · intro noWay before inside
    obtain ⟨nav, run, same⟩ := atLast_of_noWayBack httpGet fun front click more =>
      noWay front click (more.trans inside)
    exact ⟨nav, run, same.agrees⟩

/-- Two visits and a click on back. -/
def visitTwice : List Click := [⟨675, 90, literal "a"⟩, ⟨675, 90, literal "b"⟩, ⟨60, 90, []⟩]

/-- After two visits, back leads nowhere from where forward would lead back. -/
theorem visitTwice_disagrees : ¬ ∀ httpGet clicks, AlwaysAgrees httpGet clicks := by
  intro agrees
  obtain ⟨nav, run, agree⟩ := agrees (fun _ => none) visitTwice _ List.prefix_rfl
  obtain rfl := Option.some.inj run
  exact absurd (agree.forward.mpr (by decide)) (by decide)

end CocosOS.Apps.BrowserHistory
