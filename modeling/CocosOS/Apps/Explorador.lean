import CocosOS.Library.RowPanels
import CocosOS.Library.LuaValue

/-!
# The file explorer

The explorer shows a fixed listing for each of five directories, and nothing for any other route.
Its button `< atras` goes to what a pattern captures of the route, with the slash, except at the
root; so it goes from `/cocosOS/notas` to `/cocosOS/`, for which there is no listing. The buttons
`< atras` and `inicio` leave the number of the selected entry as it was.

The routes of all runs of clicks are just seven (`explorador_rutas`), the entries on the screen are
those of the route, and the number is that of one of them, though perhaps of another one than was
selected: the root has as many entries as any directory.
-/

set_option autoImplicit false

namespace CocosOS.Apps.Explorador

open Library.CString Library.Lua Library.Rows

/-! ## The source -/

structure Archivo where
  nombre : Text
  tipo : Text
  ruta : Text
  deriving DecidableEq, Repr

structure Ventana where
  rutaActual : Text
  archivos : List Archivo
  seleccionado : Option ℕ
  deriving DecidableEq, Repr

/-- The entries that `cargarDirectorio` sets for a route. -/
def listado (ruta : Text) : List Archivo :=
  if ruta = literal "/" then
    [⟨literal "cocosOS", literal "directorio", literal "/cocosOS"⟩,
      ⟨literal "apps", literal "directorio", literal "/apps"⟩,
      ⟨literal "documentos", literal "directorio", literal "/documentos"⟩,
      ⟨literal "descargas", literal "directorio", literal "/descargas"⟩]
  else if ruta = literal "/cocosOS" then
    [⟨literal "notas", literal "directorio", literal "/cocosOS/notas"⟩,
      ⟨literal "config.json", literal "archivo", literal "/cocosOS/config.json"⟩,
      ⟨literal "sistema.log", literal "archivo", literal "/cocosOS/sistema.log"⟩]
  else if ruta = literal "/apps" then
    [⟨literal "calculadora.lua", literal "archivo", literal "/apps/calculadora.lua"⟩,
      ⟨literal "bloc-de-notas.lua", literal "archivo", literal "/apps/bloc-de-notas.lua"⟩,
      ⟨literal "reloj.lua", literal "archivo", literal "/apps/reloj.lua"⟩,
      ⟨literal "calendario.lua", literal "archivo", literal "/apps/calendario.lua"⟩]
  else if ruta = literal "/documentos" then
    [⟨literal "readme.txt", literal "archivo", literal "/documentos/readme.txt"⟩,
      ⟨literal "notas.txt", literal "archivo", literal "/documentos/notas.txt"⟩]
  else []

def cargarDirectorio (ruta : Text) (ventana : Ventana) : Ventana :=
  { ventana with rutaActual := ruta, archivos := listado ruta }

/-- `[^/]+/?$` -/
def esNombre (s : Text) : Bool :=
  let nombre := s.takeWhile (· ≠ 47)
  nombre ≠ [] ∧ (s.drop nombre.length = [] ∨ s.drop nombre.length = [47])

/-- `ruta:match("^(.*/)[^/]+/?$")`. The first part is as long as it can be. -/
def padre (ruta : Text) : Option Text :=
  (ruta.inits.reverse.find? fun inicio =>
    inicio.getLast? = some 47 ∧ esNombre (ruta.drop inicio.length))

/-- What is drawn over the window. -/
inductive Aviso where
  | abriendo (nombre : Text)
  | crear
  | borrar (nombre : Text)
  deriving DecidableEq, Repr

/-- `archivos[seleccionado]`, where something is selected. -/
def elegido (ventana : Ventana) : Option Archivo :=
  ventana.seleccionado.bind fun i => ventana.archivos[i - 1]?

/-- The click in the list. -/
def fila (click : Click) (ventana : Ventana) : Ventana :=
  let indice := (click.y - 180).fdiv 30 + 1
  if indice ≥ 1 ∧ indice ≤ ventana.archivos.length then
    { ventana with seleccionado := some indice.toNat }
  else ventana

/-- The button `abrir`. -/
def abrir (ventana : Ventana) : Option Aviso × Ventana :=
  match elegido ventana with
  | none => (none, ventana)
  | some archivo =>
    if archivo.tipo = literal "directorio" then
      (none, { cargarDirectorio archivo.ruta ventana with seleccionado := none })
    else (some (.abriendo archivo.nombre), ventana)

def detectarClicks (click : Click) (ventana : Ventana) : Option Aviso × Ventana :=
  if click.Within 70 130 140 165 then
    if ventana.rutaActual ≠ literal "/" then
      (none, cargarDirectorio ((padre ventana.rutaActual).getD (literal "/")) ventana)
    else (none, ventana)
  else if click.Within 140 200 140 165 then (none, cargarDirectorio (literal "/") ventana)
  else if click.Within 70 530 170 390 then (none, fila click ventana)
  else if click.Within 70 150 400 430 then abrir ventana
  else if click.Within 160 240 400 430 then (some .crear, ventana)
  else if click.Within 250 330 400 430 then
    ((elegido ventana).map fun archivo => .borrar archivo.nombre, ventana)
  else (none, ventana)

/-- The state after the start and these clicks. -/
def explorar (clicks : List Click) : Ventana :=
  clicks.foldl (fun ventana click => (detectarClicks click ventana).2)
    (cargarDirectorio (literal "/") ⟨literal "/", [], none⟩)

/-! ## Routes -/

/-- The directories, and the route behind `< atras` in the last one of them. -/
def rutas : List Text :=
  [literal "/", literal "/cocosOS", literal "/apps", literal "/documentos", literal "/descargas",
    literal "/cocosOS/notas", literal "/cocosOS/"]

example : padre (literal "/cocosOS/notas") = some (literal "/cocosOS/") := by decide

example : padre (literal "/cocosOS/") = some (literal "/") := by decide

/-- `< atras` goes to a route with as many entries. -/
theorem padre_mem_rutas : ∀ ruta ∈ rutas, (padre ruta).getD (literal "/") ∈ rutas ∧
    (listado ruta).length ≤ (listado ((padre ruta).getD (literal "/"))).length := by
  decide

/-- The root has as many entries. -/
theorem length_listado_le : ∀ ruta ∈ rutas,
    (listado ruta).length ≤ (listado (literal "/")).length := by
  decide

theorem ruta_mem_rutas : ∀ ruta ∈ rutas, ∀ archivo ∈ listado ruta,
    archivo.tipo = literal "directorio" → archivo.ruta ∈ rutas := by
  decide

/-! ## Runs -/

/-- One of the routes, with its entries, and the number of one of them. -/
structure Consistente (ventana : Ventana) : Prop where
  ruta : ventana.rutaActual ∈ rutas
  archivos : ventana.archivos = listado ventana.rutaActual
  seleccionado : ∀ i, ventana.seleccionado = some i → 1 ≤ i ∧ i ≤ ventana.archivos.length

/-- To another directory with as many entries. -/
theorem Consistente.cargarDirectorio {ventana : Ventana} (consistente : Consistente ventana)
    {ruta : Text} (member : ruta ∈ rutas)
    (more : (listado ventana.rutaActual).length ≤ (listado ruta).length) :
    Consistente (cargarDirectorio ruta ventana) := by
  refine ⟨member, rfl, fun i selected => ?_⟩
  obtain ⟨first, last⟩ := consistente.seleccionado i selected
  rw [consistente.archivos] at last
  exact ⟨first, last.trans more⟩

theorem elegido_mem {ventana : Ventana} {archivo : Archivo} (some : elegido ventana = some archivo) :
    archivo ∈ ventana.archivos := by
  obtain ⟨i, -, here⟩ := Option.bind_eq_some_iff.mp some
  exact List.mem_of_getElem? here

theorem Consistente.fila {ventana : Ventana} (consistente : Consistente ventana) (click : Click) :
    Consistente (fila click ventana) := by
  rw [Explorador.fila]
  split_ifs with dentro
  · refine ⟨consistente.ruta, consistente.archivos, fun i selected => ?_⟩
    obtain rfl := Option.some.inj selected
    dsimp only
    omega
  · exact consistente

theorem Consistente.abrir {ventana : Ventana} (consistente : Consistente ventana) :
    Consistente (abrir ventana).2 := by
  rw [Explorador.abrir]
  cases some : elegido ventana with
  | none => exact consistente
  | some archivo =>
      have member := elegido_mem some
      rw [consistente.archivos] at member
      dsimp only
      split_ifs with directorio
      · refine ⟨ruta_mem_rutas _ consistente.ruta _ member directorio, rfl, fun i selected => ?_⟩
        exact absurd selected.symm (Option.some_ne_none i)
      · exact consistente

theorem Consistente.click {ventana : Ventana} (consistente : Consistente ventana) (click : Click) :
    Consistente (detectarClicks click ventana).2 := by
  rw [detectarClicks]
  split_ifs
  · obtain ⟨member, more⟩ := padre_mem_rutas _ consistente.ruta
    exact consistente.cargarDirectorio member more
  · exact consistente
  · exact consistente.cargarDirectorio List.mem_cons_self (length_listado_le _ consistente.ruta)
  · exact consistente.fila click
  · exact consistente.abrir
  · exact consistente
  · exact consistente
  · exact consistente

theorem consistente_explorar (clicks : List Click) : Consistente (explorar clicks) := by
  induction clicks using List.reverseRecOn with
  | nil =>
      refine ⟨List.mem_cons_self, rfl, fun i selected => ?_⟩
      exact absurd selected.symm (Option.some_ne_none i)
  | append_singleton clicks click ih =>
      rw [explorar, List.foldl_concat]
      exact ih.click click

/-- A click on `< atras`, on the row with this number, and on `abrir`. -/
def clickAtras : Click := ⟨100, 150⟩

def clickFila (i : ℕ) : Click := ⟨100, 180 + (i - 1) * 30⟩

def clickAbrir : Click := ⟨100, 410⟩

/-- **The routes of all runs**: just seven, and the screen shows the entries of the route and an entry
that exists. -/
theorem explorador_rutas :
    (∀ ruta, (∃ clicks, (explorar clicks).rutaActual = ruta) ↔ ruta ∈ rutas) ∧
      ∀ clicks, Consistente (explorar clicks) := by
  refine ⟨fun ruta => ⟨?_, fun member => ?_⟩, consistente_explorar⟩
  · rintro ⟨clicks, rfl⟩
    exact (consistente_explorar clicks).ruta
  · have visit : ∀ ruta ∈ rutas, ruta ∈ ([[], [clickFila 1, clickAbrir], [clickFila 2, clickAbrir],
        [clickFila 3, clickAbrir], [clickFila 4, clickAbrir],
        [clickFila 1, clickAbrir, clickFila 1, clickAbrir],
        [clickFila 1, clickAbrir, clickFila 1, clickAbrir, clickAtras]].map fun clicks =>
          (explorar clicks).rutaActual) := by decide
    obtain ⟨clicks, -, same⟩ := List.mem_map.mp (visit ruta member)
    exact ⟨clicks, same⟩

end CocosOS.Apps.Explorador
