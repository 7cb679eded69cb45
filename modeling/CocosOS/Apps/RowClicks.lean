import CocosOS.Library.RowPanels
import CocosOS.Library.LuaString

/-!
# Clicks on the rows of a window

The notification centre, the task manager, the clipboard history and the file search compare a click
with the place of each row. The place is held in a local `y` that shadows the `y` of the click, so
it is compared with itself, and any click in the right columns is taken by the first row.

The clicks that act on the row drawn under them are told exactly (`row_clicks_iff`).
-/

set_option autoImplicit false

namespace CocosOS.Apps

open Library.CString Library.Lua Library.Rows

/-! ## The notification centre -/

namespace Notificaciones

/-- A notification. Its number and its time are natural numbers here and in what follows: the script
counts from 0 on, and 64 bits of a Lua integer are not used up. -/
structure Notificacion where
  id : ℕ
  titulo : Text
  mensaje : Text
  tipo : Text
  timestamp : ℕ
  leida : Bool

structure Centro where
  notificaciones : List Notificacion
  idCounter : ℕ

def maxNotificaciones : ℕ := 5

def agregarNotificacion (titulo mensaje tipo : Text) (ahora : ℕ) (centro : Centro) : Centro :=
  let idCounter := centro.idCounter + 1
  let notif : Notificacion := ⟨idCounter, titulo, mensaje, tipo, ahora, false⟩
  let notificaciones := notif :: centro.notificaciones
  { notificaciones :=
      if notificaciones.length > maxNotificaciones then notificaciones.dropLast else notificaciones
    idCounter := idCounter }

def eliminarNotificacion (id : ℕ) (centro : Centro) : Centro :=
  { centro with notificaciones := centro.notificaciones.eraseP fun notif => notif.id = id }

def marcarComoLeida (id : ℕ) (centro : Centro) : Centro :=
  { centro with
    notificaciones := centro.notificaciones.replaceF fun notif =>
      if notif.id = id then some { notif with leida := true } else none }

inductive Accion where
  | eliminar
  | leer

/-- The buttons that `dibujarGUI` draws for a notification. -/
def botones (i : ℕ) (notif : Notificacion) : List (Accion × Panel) :=
  let y : ℤ := 160 + (i - 1) * 70
  (.eliminar, ⟨450, y + 5, 20, 20⟩) ::
    if notif.leida then [] else [(.leer, ⟨420, y + 35, 50, 15⟩)]

def tipos : List Text :=
  [literal "info", literal "warning", literal "error", literal "success"]

/-- Pairs of a `titulo` and a `mensaje`. -/
def mensajes : List (Text × Text) :=
  [(literal "Sistema", literal "CocosOS iniciado correctamente"),
    (literal "App", literal "Calculadora abierta"),
    (literal "Alerta", literal "Espacio en disco bajo"),
    (literal "Error", literal "No se pudo conectar a la red"),
    (literal "xito", literal "Archivo guardado correctamente")]

/-- What `math.random` and `os.time` answer. -/
structure Azar where
  tipo : Fin tipos.length
  mensaje : Fin mensajes.length
  ahora : ℕ

/-- The buttons above the rows. -/
def barra (azar : Azar) (click : Click) (centro : Centro) : Centro :=
  if click.Within 120 240 90 115 then
    let msg := mensajes.get azar.mensaje
    agregarNotificacion msg.1 msg.2 (tipos.get azar.tipo) azar.ahora centro
  else if click.Within 250 370 90 115 then { centro with notificaciones := [] }
  else centro

/-- The body of the loop. Its `y` is the row's, also where it stands for the one of the click. -/
def enFila (click : Click) (centro : Centro) (i : ℕ) (notif : Notificacion) :
    Option (Accion × Centro) :=
  let y : ℤ := 160 + (i - 1) * 70
  if click.x ≥ 450 ∧ click.x ≤ 470 ∧ y + 5 ≥ y ∧ y + 25 ≤ y + 25 then
    some (.eliminar, eliminarNotificacion notif.id centro)
  else if ¬ notif.leida ∧ click.x ≥ 420 ∧ click.x ≤ 470 ∧ y + 35 ≥ y ∧ y + 50 ≤ y + 50 then
    some (.leer, marcarComoLeida notif.id centro)
  else none

def detectarClicks (azar : Azar) (click : Click) (centro : Centro) :
    Option (Accion × ℕ) × Centro :=
  handleRows (enFila click) Centro.notificaciones (barra azar click centro)

/-- The click acts on the row drawn under it. -/
def Acts (azar : Azar) (click : Click) (centro : Centro) : Prop :=
  ActsOn (Drawn botones centro.notificaciones click) (detectarClicks azar click centro).1

/-- A click in the column of the `X` is on the first row, and one that is only in the column of
`leer` is on the first row that was not read. -/
def Hits (click : Click) (centro : Centro) : Prop :=
  (450 ≤ click.x → click.x ≤ 470 → centro.notificaciones ≠ [] →
    165 ≤ click.y ∧ click.y ≤ 185) ∧
  (420 ≤ click.x → click.x < 450 → ∀ notif i,
    (centro.notificaciones.zipIdx 1).find? (fun fila => !fila.1.leida) = some (notif, i) →
      195 + ((i : ℤ) - 1) * 70 ≤ click.y ∧ click.y ≤ 210 + ((i : ℤ) - 1) * 70)

end Notificaciones

/-! ## The task manager -/

namespace GestorTareas

/-- A process. The load is in tenths of a percent. -/
structure Proceso where
  nombre : Text
  pid : ℕ
  cpu : ℕ
  memoria : ℕ
  estado : Text
  tipo : Text

def procesosSimulados : List Proceso :=
  let ejecutando := literal "ejecutando"
  let activo := literal "activo"
  let sistema := literal "sistema"
  let app := literal "app"
  [⟨literal "kernel.lua", 1, 25, 15, ejecutando, sistema⟩,
    ⟨literal "gui.lua", 2, 52, 25, ejecutando, sistema⟩,
    ⟨literal "calculadora.lua", 101, 1, 8, activo, app⟩,
    ⟨literal "bloc-de-notas.lua", 102, 3, 12, activo, app⟩,
    ⟨literal "reloj.lua", 103, 12, 6, ejecutando, app⟩,
    ⟨literal "explorador.lua", 104, 5, 18, literal "inactivo", app⟩,
    ⟨literal "notificaciones.lua", 105, 2, 10, activo, app⟩,
    ⟨literal "shellby.py", 201, 38, 45, ejecutando, literal "ia"⟩,
    ⟨literal "vfs.c", 301, 8, 22, ejecutando, literal "driver"⟩,
    ⟨literal "scheduler.c", 302, 15, 18, ejecutando, sistema⟩]

inductive Vista where
  | lista
  | detalles

/-- The list that is shown, and the simulated processes, which are never removed. -/
structure Gestor where
  procesos : List Proceso
  simulados : List Proceso
  seleccionado : Option ℕ
  modoVista : Vista
  some_simulados : simulados ≠ []

def cargarProcesos (gestor : Gestor) : Gestor := { gestor with procesos := gestor.simulados }

/-- The state after the start of the application. -/
instance : Inhabited Gestor where
  default := cargarProcesos {
    procesos := []
    simulados := procesosSimulados
    seleccionado := none
    modoVista := .lista
    some_simulados := List.cons_ne_nil _ _ }

/-- The first process with this number is stopped, where it is not of the system. -/
def detener (pid : ℕ) (procesos : List Proceso) : List Proceso :=
  procesos.replaceF fun proc =>
    if proc.pid = pid then
      some (if proc.tipo = literal "sistema" then proc
        else { proc with estado := literal "detenido", cpu := 0, memoria := 0 })
    else none

@[simp] theorem detener_eq_nil_iff (pid : ℕ) (procesos : List Proceso) :
    detener pid procesos = [] ↔ procesos = [] := by
  rw [← List.length_eq_zero_iff, detener, List.length_replaceF, List.length_eq_zero_iff]

/-- The process is one and the same in both lists. -/
def terminarProceso (pid : ℕ) (gestor : Gestor) : Gestor :=
  { gestor with
    procesos := detener pid gestor.procesos
    simulados := detener pid gestor.simulados
    some_simulados := mt (detener_eq_nil_iff pid _).mp gestor.some_simulados }

/-- `procesos[seleccionado]`, where something is selected. -/
def elegido (gestor : Gestor) : Option Proceso :=
  match gestor.seleccionado with
  | some (i + 1) => gestor.procesos[i]?
  | _ => none

inductive Accion where
  | seleccionar

/-- The panel that `dibujarGUI` draws for a process. -/
def panel (i : ℕ) (_ : Proceso) : List (Accion × Panel) :=
  let yInicio : ℤ := 150
  let y : ℤ := yInicio + 25 + (i - 1) * 30
  [(.seleccionar, ⟨70, y, 460, 25⟩)]

/-- The buttons above the rows. -/
def barra (click : Click) (gestor : Gestor) : Gestor :=
  if click.Within 70 150 115 140 then cargarProcesos gestor
  else if click.Within 160 240 115 140 then
    match elegido gestor with
    | some proc => terminarProceso proc.pid gestor
    | none => gestor
  else if click.Within 250 330 115 140 then
    { gestor with
      modoVista := match gestor.modoVista with
        | .lista => .detalles
        | .detalles => .lista }
  else gestor

/-- The body of the loop, with the `y` of the row. -/
def enFila (click : Click) (gestor : Gestor) (i : ℕ) (_ : Proceso) : Option (Accion × Gestor) :=
  let yInicio : ℤ := 150
  let y : ℤ := yInicio + 25 + (i - 1) * 30
  if click.x ≥ 70 ∧ click.x ≤ 530 ∧ y ≥ y ∧ y ≤ y + 25 then
    some (.seleccionar, { gestor with seleccionado := some i })
  else none

def detectarClicks (click : Click) (gestor : Gestor) : Option (Accion × ℕ) × Gestor :=
  handleRows (enFila click) Gestor.procesos (barra click gestor)

/-- The click acts on the row drawn under it. -/
def Acts (click : Click) (gestor : Gestor) : Prop :=
  ActsOn (Drawn panel gestor.procesos click) (detectarClicks click gestor).1

/-- A click in the columns of the rows is on the first row, or there are no rows and none are
loaded. -/
def Hits (click : Click) (gestor : Gestor) : Prop :=
  70 ≤ click.x → click.x ≤ 530 →
    (gestor.procesos = [] ∧ ¬ click.Within 70 150 115 140) ∨
      (gestor.procesos ≠ [] ∧ 175 ≤ click.y ∧ click.y ≤ 200)

end GestorTareas

/-! ## The clipboard history -/

namespace Portapapeles

structure Item where
  texto : Text
  timestamp : ℕ
  tipo : Text

structure Historia where
  historial : List Item
  seleccionado : Option ℕ

def maxHistorial : ℕ := 20

def agregarAlHistorial (texto : Text) (ahora : ℕ) (historia : Historia) : Historia :=
  if texto = [] ∨ historia.historial.head?.map Item.texto = some texto then historia
  else
    let historial := ⟨texto, ahora, literal "texto"⟩ :: historia.historial
    { historia with
      historial := if historial.length > maxHistorial then historial.dropLast else historial }

def eliminarDelHistorial (indice : ℕ) (historia : Historia) : Historia :=
  if indice ≥ 1 ∧ indice ≤ historia.historial.length then
    { historia with historial := historia.historial.eraseIdx (indice - 1) }
  else historia

inductive Accion where
  | copiar
  | borrar
  | seleccionar

/-- The panels that `dibujarGUI` draws for a text. -/
def paneles (i : ℕ) (_ : Item) : List (Accion × Panel) :=
  let y : ℤ := 160 + (i - 1) * 50
  [(.seleccionar, ⟨70, y, 460, 45⟩), (.copiar, ⟨450, y + 10, 60, 25⟩),
    (.borrar, ⟨450, y + 35, 60, 15⟩)]

/-- The texts to try, with a number and a date. -/
def textosPrueba (numero fecha : Text) : List Text :=
  [literal "hello friend",
    literal "Sometimes I dream of saving the world. Saving everyone from the invisible hand, " ++
      literal "the one that marks us with an employee badge",
    literal "Is it that we collectively thought Steve Jobs was a great man, " ++
      literal "even when we knew he made billions off the sweat of children?",
    literal "Fuck society",
    literal "nmero: " ++ numero,
    literal "fecha: " ++ fecha]

/-- What `math.random`, `os.date` and `os.time` answer. -/
structure Azar where
  numero : Text
  fecha : Text
  texto : Fin (textosPrueba numero fecha).length
  ahora : ℕ

/-- The buttons above the rows. -/
def barra (azar : Azar) (click : Click) (historia : Historia) : Historia :=
  if click.Within 70 190 90 115 then
    agregarAlHistorial ((textosPrueba azar.numero azar.fecha).get azar.texto) azar.ahora historia
  else if click.Within 200 320 90 115 then { historial := [], seleccionado := none }
  else historia

/-- The body of the loop, with the `y` of the row. To copy a text changes nothing here. -/
def enFila (click : Click) (historia : Historia) (i : ℕ) (_ : Item) :
    Option (Accion × Historia) :=
  let y : ℤ := 160 + (i - 1) * 50
  if click.x ≥ 450 ∧ click.x ≤ 510 ∧ y + 10 ≥ y ∧ y + 35 ≤ y + 35 then
    some (.copiar, historia)
  else if click.x ≥ 450 ∧ click.x ≤ 510 ∧ y + 35 ≥ y ∧ y + 50 ≤ y + 50 then
    let despues := eliminarDelHistorial i historia
    some (.borrar, { despues with
      seleccionado := historia.seleccionado.bind fun seleccionado =>
        if seleccionado = i then none
        else if seleccionado > i then some (seleccionado - 1)
        else some seleccionado })
  else if click.x ≥ 70 ∧ click.x ≤ 530 ∧ y ≥ y ∧ y ≤ y + 45 then
    some (.seleccionar, { historia with seleccionado := some i })
  else none

def detectarClicks (azar : Azar) (click : Click) (historia : Historia) :
    Option (Accion × ℕ) × Historia :=
  handleRows (enFila click) Historia.historial (barra azar click historia)

/-- The click acts on the row drawn under it. -/
def Acts (azar : Azar) (click : Click) (historia : Historia) : Prop :=
  ActsOn (Drawn paneles historia.historial click) (detectarClicks azar click historia).1

/-- A click in the columns of the rows does not add a text. It clears the history, or there is none,
or it is in the panel of the first row, and where the buttons are on the button to copy. -/
def Hits (click : Click) (historia : Historia) : Prop :=
  70 ≤ click.x → click.x ≤ 530 → ¬ click.Within 70 190 90 115 ∧
    (click.Within 200 320 90 115 ∨ historia.historial = [] ∨
      (450 ≤ click.x ∧ click.x ≤ 510 ∧ 170 ≤ click.y ∧ click.y ≤ 195) ∨
      (¬ (450 ≤ click.x ∧ click.x ≤ 510) ∧ 160 ≤ click.y ∧ click.y ≤ 205))

end Portapapeles

/-! ## The file search -/

namespace Buscador

structure Archivo where
  nombre : Text
  ruta : Text
  tipo : Text
  contenido : Option Text

def archivosSistema : List Archivo :=
  let app := literal "app"
  [⟨literal "calculadora.lua", literal "/apps/calculadora.lua", app,
      literal "calculadora matemtica"⟩,
    ⟨literal "bloc-de-notas.lua", literal "/apps/bloc-de-notas.lua", app,
      literal "editor de texto simple"⟩,
    ⟨literal "reloj.lua", literal "/apps/reloj.lua", app, literal "reloj en tiempo real"⟩,
    ⟨literal "calendario.lua", literal "/apps/calendario.lua", app, literal "calendario mensual"⟩,
    ⟨literal "explorador.lua", literal "/apps/explorador.lua", app,
      literal "explorador de archivos"⟩,
    ⟨literal "notificaciones.lua", literal "/apps/notificaciones.lua", app,
      literal "centro de notificaciones"⟩,
    ⟨literal "portapapeles.lua", literal "/apps/portapapeles.lua", app,
      literal "historial del portapapeles"⟩,
    ⟨literal "tienda.lua", literal "/apps/tienda.lua", app, literal "tienda de aplicaciones"⟩,
    ⟨literal "config.lua", literal "/apps/config.lua", app, literal "configuracin del sistema"⟩,
    ⟨literal "readme.txt", literal "/documentos/readme.txt", literal "documento",
      literal "gua de usuario"⟩,
    ⟨literal "notas.txt", literal "/documentos/notas.txt", literal "documento",
      literal "notas personales"⟩,
    ⟨literal "config.json", literal "/cocosOS/config.json", literal "config",
      literal "configuracin principal"⟩,
    ⟨literal "sistema.log", literal "/cocosOS/sistema.log", literal "log",
      literal "registro del sistema"⟩]

/-- The term is found in one of the fields. -/
def coincide (termino : Text) (archivo : Archivo) : Bool :=
  finds (lower archivo.nombre) termino || finds (lower archivo.ruta) termino ||
    archivo.contenido.any (fun contenido => finds (lower contenido) termino) ||
    finds (lower archivo.tipo) termino

/-- `buscarArchivos`, with the results it finds. -/
def buscarArchivos (termino : Text) : List Archivo :=
  if termino = [] then [] else archivosSistema.filter (coincide (lower termino))

structure Busqueda where
  busqueda : Text
  resultados : List Archivo
  seleccionado : Option ℕ
  modoBusqueda : Bool

inductive Accion where
  | abrir
  | ver
  | seleccionar

/-- The panels that `dibujarGUI` draws for a result. -/
def paneles (i : ℕ) (_ : Archivo) : List (Accion × Panel) :=
  let y : ℤ := 190 + (i - 1) * 60
  [(.seleccionar, ⟨70, y, 460, 55⟩), (.abrir, ⟨450, y + 5, 60, 20⟩), (.ver, ⟨450, y + 30, 60, 20⟩)]

/-- The results that `dibujarGUI` draws. -/
def dibujados (estado : Busqueda) : List Archivo :=
  if estado.busqueda = [] then [] else estado.resultados

def filtrar (tipo : Text) (estado : Busqueda) : Busqueda :=
  { estado with busqueda := tipo, resultados := buscarArchivos tipo }

/-- The buttons above the rows. -/
def barra (click : Click) (estado : Busqueda) : Busqueda :=
  if click.Within 70 530 90 120 then { estado with modoBusqueda := !estado.modoBusqueda }
  else if click.Within 70 150 130 155 then
    { estado with resultados := buscarArchivos estado.busqueda }
  else if click.Within 160 240 130 155 then ⟨[], [], none, false⟩
  else if click.Within 310 360 130 155 then filtrar (literal "app") estado
  else if click.Within 370 430 130 155 then filtrar (literal "documento") estado
  else if click.Within 440 500 130 155 then filtrar (literal "config") estado
  else estado

/-- The body of the loop, with the `y` of the row. The first two actions only draw. -/
def enFila (click : Click) (estado : Busqueda) (i : ℕ) (_ : Archivo) :
    Option (Accion × Busqueda) :=
  let y : ℤ := 190 + (i - 1) * 60
  if click.x ≥ 450 ∧ click.x ≤ 510 ∧ y + 5 ≥ y ∧ y + 25 ≤ y + 25 then some (.abrir, estado)
  else if click.x ≥ 450 ∧ click.x ≤ 510 ∧ y + 30 ≥ y ∧ y + 50 ≤ y + 50 then some (.ver, estado)
  else if click.x ≥ 70 ∧ click.x ≤ 530 ∧ y ≥ y ∧ y ≤ y + 55 then
    some (.seleccionar, { estado with seleccionado := some i })
  else none

def detectarClicks (click : Click) (estado : Busqueda) : Option (Accion × ℕ) × Busqueda :=
  handleRows (enFila click) Busqueda.resultados (barra click estado)

/-- The click acts on the row drawn under it. -/
def Acts (click : Click) (estado : Busqueda) : Prop :=
  ActsOn (Drawn paneles (dibujados estado) click) (detectarClicks click estado).1

/-- The click is on one of the filters. -/
def OnFilter (click : Click) : Prop :=
  click.Within 310 360 130 155 ∨ click.Within 370 430 130 155 ∨ click.Within 440 500 130 155

/-- A click in the columns of the rows is not on a filter. It leaves no results, or it is in the
panel of the first drawn row, and where the buttons are on the button to open. -/
def Hits (click : Click) (estado : Busqueda) : Prop :=
  70 ≤ click.x → click.x ≤ 530 → ¬ OnFilter click ∧
    (click.Within 160 240 130 155 ∨
      (click.Within 70 150 130 155 ∧ buscarArchivos estado.busqueda = []) ∨
      (¬ click.Within 70 150 130 155 ∧ estado.resultados = []) ∨
      (dibujados estado ≠ [] ∧
        ((450 ≤ click.x ∧ click.x ≤ 510 ∧ 195 ≤ click.y ∧ click.y ≤ 215) ∨
          (¬ (450 ≤ click.x ∧ click.x ≤ 510) ∧ 190 ≤ click.y ∧ click.y ≤ 245))))

end Buscador

/-! ## The notification centre: which clicks hit -/

namespace Notificaciones

theorem mem_botones {i : ℕ} {notif : Notificacion} {accion : Accion} {panel : Panel}
    (drawn : (accion, panel) ∈ botones i notif) :
    (accion = .eliminar ∧ panel = ⟨450, 160 + (i - 1) * 70 + 5, 20, 20⟩) ∨
      (accion = .leer ∧ notif.leida = false ∧
        panel = ⟨420, 160 + (i - 1) * 70 + 35, 50, 15⟩) := by
  rw [botones, List.mem_cons] at drawn
  rcases drawn with eliminar | leer
  · exact .inl (Prod.mk.inj eliminar)
  · split_ifs at leer with leida
    · exact absurd leer List.not_mem_nil
    · obtain ⟨accion, panel⟩ := Prod.mk.inj (List.mem_singleton.mp leer)
      exact .inr ⟨accion, Bool.eq_false_of_not_eq_true leida, panel⟩

theorem bounded : Bounded botones 420 470 165 := by
  intro i notif accion panel first drawn
  rcases mem_botones drawn with ⟨-, rfl⟩ | ⟨-, -, rfl⟩ <;> dsimp only <;> omega

theorem drawn_eliminar_iff (notificaciones : List Notificacion) (click : Click) :
    Drawn botones notificaciones click (.eliminar, 1) ↔
      notificaciones ≠ [] ∧ click.Within 450 470 165 185 := by
  rw [drawn_first_iff]
  cases notificaciones with
  | nil => simp
  | cons notif notificaciones =>
      cases leida : notif.leida <;> simp [botones, Panel.Around]

theorem drawn_leer_iff {notificaciones : List Notificacion} {click : Click} {notif : Notificacion}
    {i : ℕ} (member : (notif, i) ∈ notificaciones.zipIdx 1) (leida : notif.leida = false) :
    Drawn botones notificaciones click (.leer, i) ↔
      click.Within 420 470 (195 + (i - 1) * 70) (210 + (i - 1) * 70) := by
  have top : (160 : ℤ) + (i - 1) * 70 + 35 = 195 + (i - 1) * 70 := by omega
  have bottom : (195 : ℤ) + (i - 1) * 70 + 15 = 210 + (i - 1) * 70 := by omega
  rw [drawn_iff_of_mem member]
  simp [botones, leida, Panel.Around, top, bottom]

/-- The buttons above the rows are in other columns. -/
theorem barra_eq (azar : Azar) {click : Click} (right : 420 ≤ click.x) (centro : Centro) :
    barra azar click centro = centro := by
  have apart {left right' : ℤ} (less : right' < 420) : ¬ click.Within left right' 90 115 :=
    fun inside => by
      have := inside.2.1
      omega
  rw [barra, if_neg (apart (by decide)), if_neg (apart (by decide))]

theorem acts_iff_of_eliminar (azar : Azar) {click : Click} (column : 450 ≤ click.x)
    (column' : click.x ≤ 470) (centro : Centro) :
    Acts azar click centro ↔
      (centro.notificaciones ≠ [] → 165 ≤ click.y ∧ click.y ≤ 185) := by
  have taken : ∀ i notif, ∃ after,
      enFila click centro i notif = some (.eliminar, after) := fun i notif =>
    ⟨_, if_pos ⟨column, column', by omega, le_rfl⟩⟩
  rw [Acts, detectarClicks, barra_eq azar (by omega), actsOn_taken_iff taken, drawn_eliminar_iff]
  by_cases empty : centro.notificaciones = []
  · refine iff_of_true (.inl ⟨empty, ?_⟩) fun some => absurd empty some
    rw [empty]
    exact not_drawn_nil
  · simp [empty, Click.Within, column, column']

theorem acts_iff_of_leer (azar : Azar) {click : Click} (column : 420 ≤ click.x)
    (column' : click.x < 450) (centro : Centro) :
    Acts azar click centro ↔ ∀ notif i,
      (centro.notificaciones.zipIdx 1).find? (fun fila => !fila.1.leida) = some (notif, i) →
        195 + ((i : ℤ) - 1) * 70 ≤ click.y ∧ click.y ≤ 210 + ((i : ℤ) - 1) * 70 := by
  have taken : ∀ i notif, (enFila click centro i notif).map Prod.fst =
      if !notif.leida then some .leer else none := by
    intro i notif
    rw [enFila, if_neg fun inside => absurd inside.1 (by omega)]
    cases leida : notif.leida
    · rw [if_pos ⟨Bool.false_ne_true, column, by omega, by omega, le_rfl⟩]
      rfl
    · rw [if_neg fun inside => inside.1 rfl]
      rfl
  rw [Acts, detectarClicks, barra_eq azar column, handleRows_some taken]
  cases first : (centro.notificaciones.zipIdx 1).find? fun fila => !fila.1.leida with
  | none =>
      refine iff_of_true ?_ nofun
      rintro ⟨accion, i⟩ ⟨notif, panel, member, drawn, around⟩
      rcases mem_botones drawn with ⟨-, rfl⟩ | ⟨-, leida, -⟩
      · exact absurd around.1 (by dsimp only; omega)
      · exact absurd leida (by simpa using List.find?_eq_none.mp first _ member)
  | some fila =>
      obtain ⟨notif, i⟩ := fila
      have leida : notif.leida = false := by simpa using List.find?_some first
      rw [Option.map_some]
      refine (drawn_leer_iff (List.mem_of_find?_eq_some first) leida).trans ?_
      constructor
      · rintro inside other j same
        obtain ⟨rfl, rfl⟩ := Prod.mk.inj (Option.some.inj same)
        exact inside.2.2
      · intro inside
        exact ⟨column, by omega, inside notif i rfl⟩

theorem acts_iff (azar : Azar) (click : Click) (centro : Centro) :
    Acts azar click centro ↔ Hits click centro := by
  by_cases columns : 420 ≤ click.x ∧ click.x ≤ 470
  · rcases lt_or_ge click.x 450 with leer | eliminar
    · rw [acts_iff_of_leer azar columns.1 leer]
      exact ⟨fun inside => ⟨fun right => absurd leer right.not_gt, fun _ _ => inside⟩,
        fun hits => hits.2 columns.1 leer⟩
    · rw [acts_iff_of_eliminar azar eliminar columns.2]
      exact ⟨fun inside => ⟨fun _ _ => inside, fun _ left => absurd left eliminar.not_gt⟩,
        fun hits => hits.1 eliminar columns.2⟩
  · refine iff_of_true (actsOn_none (fun i notif => ?_) (bounded.not_drawn fun inside =>
      columns ⟨inside.1, inside.2.1⟩)) ⟨fun left right => ?_, fun left right => ?_⟩
    · rw [enFila, if_neg fun inside => columns (by omega),
        if_neg fun inside => columns ⟨inside.2.1, inside.2.2.1⟩]
    · exact absurd ⟨by omega, right⟩ columns
    · exact absurd ⟨left, by omega⟩ columns

end Notificaciones

/-! ## The task manager: which clicks hit -/

namespace GestorTareas

theorem bounded : Bounded panel 70 530 175 := by
  intro i proc action other first drawn
  obtain ⟨-, rfl⟩ := Prod.mk.inj (List.mem_singleton.mp drawn)
  dsimp only
  omega

theorem drawn_iff (procesos : List Proceso) (click : Click) :
    Drawn panel procesos click (.seleccionar, 1) ↔
      procesos ≠ [] ∧ click.Within 70 530 175 200 := by
  rw [drawn_first_iff]
  cases procesos with
  | nil => simp
  | cons proc procesos => simp [panel, Panel.Around]

theorem barra_procesos (click : Click) (gestor : Gestor) :
    (barra click gestor).procesos = [] ↔
      gestor.procesos = [] ∧ ¬ click.Within 70 150 115 140 := by
  rw [barra]
  split_ifs with actualizar terminar detalles
  · exact iff_of_false gestor.some_simulados fun both => both.2 actualizar
  · cases elegido gestor with
    | none => simp [actualizar]
    | some proc => simp [actualizar, terminarProceso]
  · simp [actualizar]
  · simp [actualizar]

theorem acts_iff (click : Click) (gestor : Gestor) : Acts click gestor ↔ Hits click gestor := by
  by_cases columns : 70 ≤ click.x ∧ click.x ≤ 530
  · have taken : ∀ i proc, ∃ after,
        enFila click (barra click gestor) i proc = some (.seleccionar, after) := fun i proc =>
      ⟨_, if_pos ⟨columns.1, columns.2, le_rfl, by omega⟩⟩
    rw [Acts, detectarClicks, actsOn_taken_iff taken, barra_procesos, drawn_iff]
    constructor
    · rintro (⟨empty, -⟩ | ⟨-, some, here⟩) - -
      · exact .inl empty
      · exact .inr ⟨some, here.2.2⟩
    · intro hits
      rcases hits columns.1 columns.2 with empty | ⟨some, here⟩
      · refine .inl ⟨empty, ?_⟩
        rw [empty.1]
        exact not_drawn_nil
      · exact .inr ⟨fun none => some ((barra_procesos ..).mp none).1, some, columns.1, columns.2,
          here⟩
  · refine iff_of_true (actsOn_none (fun i proc => ?_) (bounded.not_drawn ?_)) fun left right =>
      absurd ⟨left, right⟩ columns
    · exact if_neg fun inside => columns ⟨inside.1, inside.2.1⟩
    · exact fun inside => columns ⟨inside.1, inside.2.1⟩

end GestorTareas

/-! ## The clipboard history: which clicks hit -/

namespace Portapapeles

set_option maxRecDepth 2048 in
theorem textosPrueba_ne_nil {numero fecha texto : Text}
    (member : texto ∈ textosPrueba numero fecha) : texto ≠ [] := by
  have starts (titulo : String) (resto : Text) (some : titulo ≠ "") :
      literal titulo ++ resto ≠ [] := by
    rw [literal]
    simpa using fun empty => absurd empty some
  simp only [textosPrueba, List.mem_cons, List.not_mem_nil, or_false] at member
  rcases member with rfl | rfl | rfl | rfl | rfl | rfl
  · exact starts "hello friend" [] (by decide)
  · exact starts _ _ (by decide)
  · exact starts _ _ (by decide)
  · exact starts "Fuck society" [] (by decide)
  · exact starts _ _ (by decide)
  · exact starts _ _ (by decide)

theorem agregarAlHistorial_ne_nil {texto : Text} (some : texto ≠ []) (ahora : ℕ)
    (historia : Historia) : (agregarAlHistorial texto ahora historia).historial ≠ [] := by
  rw [agregarAlHistorial]
  split_ifs with same
  · intro empty
    rw [empty] at same
    exact same.elim some nofun
  · dsimp only
    split_ifs with long
    · refine List.ne_nil_of_length_pos ?_
      rw [List.length_dropLast]
      exact Nat.sub_pos_of_lt (Nat.lt_trans (by decide) long)
    · exact List.cons_ne_nil _ _

theorem drawn_copiar_iff (historial : List Item) (click : Click) :
    Drawn paneles historial click (.copiar, 1) ↔
      historial ≠ [] ∧ click.Within 450 510 170 195 := by
  rw [drawn_first_iff]
  cases historial with
  | nil => simp
  | cons item historial => simp [paneles, Panel.Around]

theorem drawn_seleccionar_iff (historial : List Item) (click : Click) :
    Drawn paneles historial click (.seleccionar, 1) ↔
      historial ≠ [] ∧ click.Within 70 530 160 205 := by
  rw [drawn_first_iff]
  cases historial with
  | nil => simp
  | cons item historial => simp [paneles, Panel.Around]

theorem barra_historial (azar : Azar) (click : Click) (historia : Historia) :
    (barra azar click historia).historial = [] ↔ ¬ click.Within 70 190 90 115 ∧
      (click.Within 200 320 90 115 ∨ historia.historial = []) := by
  rw [barra]
  split_ifs with agregar limpiar
  · refine iff_of_false (agregarAlHistorial_ne_nil ?_ _ _)
      fun both => both.1 agregar
    exact textosPrueba_ne_nil (List.get_mem ..)
  · exact iff_of_true rfl ⟨agregar, .inl limpiar⟩
  · simp [agregar, limpiar]

theorem bounded : Bounded paneles 70 530 160 := by
  intro i item action panel first drawn
  simp only [paneles, List.mem_cons, List.not_mem_nil, or_false, Prod.mk.injEq] at drawn
  rcases drawn with ⟨-, rfl⟩ | ⟨-, rfl⟩ | ⟨-, rfl⟩ <;> dsimp only <;> omega

/-- Where every row takes the click with this action, told by the place of the first row. -/
theorem acts_taken_iff {azar : Azar} {click : Click} {historia : Historia} {action : Accion}
    {Here : Prop} (taken : ∀ i item, ∃ after,
      enFila click (barra azar click historia) i item = some (action, after))
    (drawn : Drawn paneles historia.historial click (action, 1) ↔ historia.historial ≠ [] ∧ Here)
    (below : Here → 160 ≤ click.y) :
    Acts azar click historia ↔ ¬ click.Within 70 190 90 115 ∧
      (click.Within 200 320 90 115 ∨ historia.historial = [] ∨ Here) := by
  have above {left right : ℤ} (button : click.Within left right 90 115) :
      ¬ (70 ≤ click.x ∧ click.x ≤ 530 ∧ 160 ≤ click.y) := fun inside => by
    have := button.2.2.2
    omega
  have apart (here : Here) (left right : ℤ) : ¬ click.Within left right 90 115 := fun button => by
    have := below here
    have := button.2.2.2
    omega
  rw [Acts, detectarClicks, actsOn_taken_iff taken, barra_historial, drawn]
  constructor
  · rintro (⟨⟨agregar, none⟩, -⟩ | ⟨-, -, here⟩)
    · exact ⟨agregar, none.imp_right .inl⟩
    · exact ⟨apart here _ _, .inr (.inr here)⟩
  · rintro ⟨agregar, limpiar | empty | here⟩
    · exact .inl ⟨⟨agregar, .inl limpiar⟩, bounded.not_drawn (above limpiar)⟩
    · refine .inl ⟨⟨agregar, .inr empty⟩, ?_⟩
      rw [empty]
      exact not_drawn_nil
    · by_cases empty : historia.historial = []
      · refine .inl ⟨⟨agregar, .inr empty⟩, ?_⟩
        rw [empty]
        exact not_drawn_nil
      · refine .inr ⟨fun none => ?_, empty, here⟩
        rcases ((barra_historial ..).mp none).2 with limpiar | none
        · exact apart here _ _ limpiar
        · exact empty none

theorem acts_iff (azar : Azar) (click : Click) (historia : Historia) :
    Acts azar click historia ↔ Hits click historia := by
  by_cases columns : 70 ≤ click.x ∧ click.x ≤ 530
  · by_cases buttons : 450 ≤ click.x ∧ click.x ≤ 510
    · have taken : ∀ i item, ∃ after,
          enFila click (barra azar click historia) i item = some (.copiar, after) := fun i item =>
        ⟨_, if_pos ⟨buttons.1, buttons.2, by omega, le_rfl⟩⟩
      rw [acts_taken_iff taken (drawn_copiar_iff ..) fun here => by have := here.2.2.1; omega]
      simp [Hits, Click.Within, columns, buttons]
    · have taken : ∀ i item, ∃ after,
          enFila click (barra azar click historia) i item = some (.seleccionar, after) := by
        refine fun i item => ⟨{ barra azar click historia with seleccionado := some i }, ?_⟩
        rw [enFila, if_neg fun inside => buttons ⟨inside.1, inside.2.1⟩,
          if_neg fun inside => buttons ⟨inside.1, inside.2.1⟩,
          if_pos ⟨columns.1, columns.2, le_rfl, by omega⟩]
      have other : ¬ (450 ≤ click.x ∧ click.x ≤ 510 ∧ 170 ≤ click.y ∧ click.y ≤ 195) :=
        fun inside => buttons ⟨inside.1, inside.2.1⟩
      rw [acts_taken_iff taken (drawn_seleccionar_iff ..) fun here => here.2.2.1]
      simp [Hits, Click.Within, columns, buttons, other]
  · refine iff_of_true (actsOn_none (fun i item => ?_) (bounded.not_drawn fun inside =>
      columns ⟨inside.1, inside.2.1⟩))
      fun left right => absurd ⟨left, right⟩ columns
    rw [enFila, if_neg fun inside => columns (by omega), if_neg fun inside => columns (by omega),
      if_neg fun inside => columns ⟨inside.1, inside.2.1⟩]

end Portapapeles

/-! ## The file search: which clicks hit -/

namespace Buscador

theorem drawn_abrir_iff (resultados : List Archivo) (click : Click) :
    Drawn paneles resultados click (.abrir, 1) ↔
      resultados ≠ [] ∧ click.Within 450 510 195 215 := by
  rw [drawn_first_iff]
  cases resultados with
  | nil => simp
  | cons archivo resultados => simp [paneles, Panel.Around]

theorem drawn_seleccionar_iff (resultados : List Archivo) (click : Click) :
    Drawn paneles resultados click (.seleccionar, 1) ↔
      resultados ≠ [] ∧ click.Within 70 530 190 245 := by
  rw [drawn_first_iff]
  cases resultados with
  | nil => simp
  | cons archivo resultados => simp [paneles, Panel.Around]

theorem bounded : Bounded paneles 70 530 190 := by
  intro i archivo action panel first drawn
  simp only [paneles, List.mem_cons, List.not_mem_nil, or_false, Prod.mk.injEq] at drawn
  rcases drawn with ⟨-, rfl⟩ | ⟨-, rfl⟩ | ⟨-, rfl⟩ <;> dsimp only <;> omega

theorem buscarArchivos_app : buscarArchivos (literal "app") ≠ [] := by decide +kernel

theorem buscarArchivos_documento : buscarArchivos (literal "documento") ≠ [] := by decide +kernel

theorem buscarArchivos_config : buscarArchivos (literal "config") ≠ [] := by decide +kernel

theorem barra_resultados (click : Click) (estado : Busqueda) :
    (barra click estado).resultados = [] ↔ ¬ OnFilter click ∧
      (click.Within 160 240 130 155 ∨
        (click.Within 70 150 130 155 ∧ buscarArchivos estado.busqueda = []) ∨
        (¬ click.Within 70 150 130 155 ∧ estado.resultados = [])) := by
  rw [barra, OnFilter]
  split_ifs with campo buscar limpiar apps docs config
  · have apart : ∀ left right, ¬ click.Within left right 130 155 := fun left right below => by
      have := campo.2.2.2
      have := below.2.2.1
      omega
    simp [apart]
  · have apart : ∀ left right, 150 < left → ¬ click.Within left right 130 155 :=
      fun left right behind other => by
        have := buscar.2.1
        have := other.1
        omega
    simp [buscar, apart]
  · have apart : ∀ left right, 240 < left → ¬ click.Within left right 130 155 :=
      fun left right behind other => by
        have := limpiar.2.1
        have := other.1
        omega
    simp [limpiar, apart]
  · simp [apps, filtrar, buscarArchivos_app]
  · simp [docs, filtrar, buscarArchivos_documento]
  · simp [config, filtrar, buscarArchivos_config]
  · simp [buscar, limpiar, apps, docs, config]

/-- Where every row takes the click with this action, told by the place of the first row. -/
theorem acts_taken_iff {click : Click} {estado : Busqueda} {action : Accion} {Here : Prop}
    (taken : ∀ i archivo, ∃ after,
      enFila click (barra click estado) i archivo = some (action, after))
    (drawn : Drawn paneles (dibujados estado) click (action, 1) ↔ dibujados estado ≠ [] ∧ Here)
    (below : Here → 190 ≤ click.y) :
    Acts click estado ↔ ¬ OnFilter click ∧
      (click.Within 160 240 130 155 ∨
        (click.Within 70 150 130 155 ∧ buscarArchivos estado.busqueda = []) ∨
        (¬ click.Within 70 150 130 155 ∧ estado.resultados = []) ∨
        (dibujados estado ≠ [] ∧ Here)) := by
  have above {left right : ℤ} (button : click.Within left right 130 155) :
      ¬ (70 ≤ click.x ∧ click.x ≤ 530 ∧ 190 ≤ click.y) := fun inside => by
    have := button.2.2.2
    omega
  have apart (here : Here) (left right : ℤ) : ¬ click.Within left right 130 155 := fun button => by
    have := below here
    have := button.2.2.2
    omega
  rw [Acts, detectarClicks, actsOn_taken_iff taken, barra_resultados, drawn]
  constructor
  · rintro (⟨⟨filtro, none⟩, -⟩ | ⟨-, some, here⟩)
    · exact ⟨filtro, none.imp_right (Or.imp_right .inl)⟩
    · refine ⟨?_, .inr (.inr (.inr ⟨some, here⟩))⟩
      rintro (other | other | other) <;> exact apart here _ _ other
  · rintro ⟨filtro, limpiar | ⟨buscar, none⟩ | ⟨buscar, none⟩ | ⟨some, here⟩⟩
    · exact .inl ⟨⟨filtro, .inl limpiar⟩, bounded.not_drawn (above limpiar)⟩
    · exact .inl ⟨⟨filtro, .inr (.inl ⟨buscar, none⟩)⟩, bounded.not_drawn (above buscar)⟩
    · refine .inl ⟨⟨filtro, .inr (.inr ⟨buscar, none⟩)⟩, ?_⟩
      rw [dibujados, none, ite_self]
      exact not_drawn_nil
    · refine .inr ⟨fun none => ?_, some, here⟩
      rcases ((barra_resultados ..).mp none).2 with other | ⟨other, -⟩ | ⟨-, none⟩
      · exact apart here _ _ other
      · exact apart here _ _ other
      · rw [dibujados, none, ite_self] at some
        exact some rfl

theorem acts_iff (click : Click) (estado : Busqueda) : Acts click estado ↔ Hits click estado := by
  by_cases columns : 70 ≤ click.x ∧ click.x ≤ 530
  · by_cases buttons : 450 ≤ click.x ∧ click.x ≤ 510
    · have taken : ∀ i archivo, ∃ after,
          enFila click (barra click estado) i archivo = some (.abrir, after) := fun i archivo =>
        ⟨_, if_pos ⟨buttons.1, buttons.2, by omega, le_rfl⟩⟩
      rw [acts_taken_iff taken (drawn_abrir_iff ..) fun here => by have := here.2.2.1; omega]
      simp [Hits, Click.Within, columns, buttons]
    · have taken : ∀ i archivo, ∃ after,
          enFila click (barra click estado) i archivo = some (.seleccionar, after) := by
        refine fun i archivo => ⟨{ barra click estado with seleccionado := some i }, ?_⟩
        rw [enFila, if_neg fun inside => buttons ⟨inside.1, inside.2.1⟩,
          if_neg fun inside => buttons ⟨inside.1, inside.2.1⟩,
          if_pos ⟨columns.1, columns.2, le_rfl, by omega⟩]
      have other : ¬ (450 ≤ click.x ∧ click.x ≤ 510 ∧ 195 ≤ click.y ∧ click.y ≤ 215) :=
        fun inside => buttons ⟨inside.1, inside.2.1⟩
      rw [acts_taken_iff taken (drawn_seleccionar_iff ..) fun here => here.2.2.1]
      simp [Hits, Click.Within, columns, buttons, other]
  · refine iff_of_true (actsOn_none (fun i archivo => ?_) (bounded.not_drawn fun inside =>
      columns ⟨inside.1, inside.2.1⟩))
      fun left right => absurd ⟨left, right⟩ columns
    rw [enFila, if_neg fun inside => columns (by omega), if_neg fun inside => columns (by omega),
      if_neg fun inside => columns ⟨inside.1, inside.2.1⟩]

end Buscador

/-! ## All four -/

/-- One of the windows, with its state and what its calls answer. -/
inductive Ventana where
  | notificaciones (azar : Notificaciones.Azar) (centro : Notificaciones.Centro)
  | tareas (gestor : GestorTareas.Gestor)
  | portapapeles (azar : Portapapeles.Azar) (historia : Portapapeles.Historia)
  | buscador (estado : Buscador.Busqueda)

/-- The click acts on the row drawn under it. -/
def Ventana.Acts (click : Click) : Ventana → Prop
  | .notificaciones azar centro => Notificaciones.Acts azar click centro
  | .tareas gestor => GestorTareas.Acts click gestor
  | .portapapeles azar historia => Portapapeles.Acts azar click historia
  | .buscador estado => Buscador.Acts click estado

def Ventana.Hits (click : Click) : Ventana → Prop
  | .notificaciones _ centro => Notificaciones.Hits click centro
  | .tareas gestor => GestorTareas.Hits click gestor
  | .portapapeles _ historia => Portapapeles.Hits click historia
  | .buscador estado => Buscador.Hits click estado

/-- **The clicks that act on the row drawn under them, in each of the windows.** -/
theorem row_clicks_iff (click : Click) (ventana : Ventana) :
    ventana.Acts click ↔ ventana.Hits click := by
  cases ventana with
  | notificaciones azar centro => exact Notificaciones.acts_iff azar click centro
  | tareas gestor => exact GestorTareas.acts_iff click gestor
  | portapapeles azar historia => exact Portapapeles.acts_iff azar click historia
  | buscador estado => exact Buscador.acts_iff click estado

/-- Two notifications. -/
def twoNotificaciones : Notificaciones.Centro where
  notificaciones :=
    [⟨2, literal "App", literal "Calculadora abierta", literal "info", 0, false⟩,
      ⟨1, literal "Bienvenido", literal "Centro de notificaciones activado", literal "success", 0,
        false⟩]
  idCounter := 2

/-- A click on the `X` of the second notification removes the first one. -/
theorem second_row_missed : ¬ ∀ click (ventana : Ventana), ventana.Acts click := by
  intro acts
  let azar : Notificaciones.Azar :=
    ⟨⟨0, by simp [Notificaciones.tipos]⟩, ⟨0, by simp [Notificaciones.mensajes]⟩, 0⟩
  have hits := (Notificaciones.acts_iff azar ⟨460, 245⟩ twoNotificaciones).mp
    (acts ⟨460, 245⟩ (.notificaciones azar twoNotificaciones))
  exact absurd (hits.1 (by decide) (by decide) (List.cons_ne_nil _ _)).2 (by decide)

end CocosOS.Apps
