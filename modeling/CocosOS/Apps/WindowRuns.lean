import CocosOS.Apps.RowClicks
import Mathlib.Data.List.Destutter

/-!
# Windows over many clicks

What the windows hold after any run of clicks. Since the first row takes each click that some row
takes, the other rows are never acted on.

The notification centre is a stack of at most five notifications, of which only the newest is ever
removed (`centro_is_stack`). Nothing but the first process, which is one of the system, is ever
selected in the task manager, so no process is ever stopped (`no_process_stopped`). The clipboard
history is never shortened by its own buttons: it holds the last texts that were added
(`historial_is_last_texts`). And the file search finds what one of its filters finds
(`resultados_of_filter`).
-/

set_option autoImplicit false

namespace CocosOS.Apps

open Library.CString Library.Lua Library.Rows

/-! ## The notification centre -/

namespace Notificaciones

/-- The state after the start of the application. -/
def inicio (ahora : ℕ) : Centro :=
  agregarNotificacion (literal "Bienvenido") (literal "Centro de notificaciones activado")
    (literal "success") ahora ⟨[], 0⟩

def clicksRun (clicks : List (Azar × Click)) (centro : Centro) : Centro :=
  clicks.foldl (fun centro click => (detectarClicks click.1 click.2 centro).2) centro

/-- The numbers of the notifications, the newest first, and the last number that was given. -/
structure Pila where
  ids : List ℕ
  ultimo : ℕ

/-- A click puts the next number on the stack, empties it, or takes one off. -/
def Pila.click (pila : Pila) (click : Click) : Pila :=
  if click.Within 120 240 90 115 then
    ⟨((pila.ultimo + 1) :: pila.ids).take maxNotificaciones, pila.ultimo + 1⟩
  else if click.Within 250 370 90 115 then ⟨[], pila.ultimo⟩
  else if 450 ≤ click.x ∧ click.x ≤ 470 then ⟨pila.ids.tail, pila.ultimo⟩
  else pila

def Centro.pila (centro : Centro) : Pila :=
  ⟨centro.notificaciones.map Notificacion.id, centro.idCounter⟩

/-- The numbers fall, and there are not more of them than fit. -/
structure Pila.Ordered (pila : Pila) : Prop where
  falling : pila.ids.Pairwise (· > ·)
  given : ∀ id ∈ pila.ids, id ≤ pila.ultimo
  short : pila.ids.length ≤ maxNotificaciones

theorem Pila.Ordered.click {pila : Pila} (ordered : pila.Ordered) (click : Click) :
    (pila.click click).Ordered := by
  rw [Pila.click]
  split_ifs with agregar limpiar equis
  · have below : ∀ id ∈ pila.ids, id < pila.ultimo + 1 := fun id member =>
      Nat.lt_succ_of_le (ordered.given id member)
    refine ⟨(List.Pairwise.cons below ordered.falling).sublist (List.take_sublist ..), ?_, ?_⟩
    · intro id member
      rcases List.mem_cons.mp (List.mem_of_mem_take member) with rfl | earlier
      · exact Nat.le_refl _
      · exact Nat.le_of_lt (below id earlier)
    · exact List.length_take_le ..
  · exact ⟨.nil, fun _ none => absurd none List.not_mem_nil, Nat.zero_le _⟩
  · refine ⟨ordered.falling.tail, fun id member => ordered.given id (List.mem_of_mem_tail member),
      ?_⟩
    rw [List.length_tail]
    exact (Nat.sub_le ..).trans ordered.short
  · exact ordered

theorem pila_agregar (titulo mensaje tipo : Text) (ahora : ℕ) {centro : Centro}
    (short : centro.notificaciones.length ≤ maxNotificaciones) :
    (agregarNotificacion titulo mensaje tipo ahora centro).pila =
      ⟨((centro.idCounter + 1) :: centro.pila.ids).take maxNotificaciones,
        centro.idCounter + 1⟩ := by
  rw [agregarNotificacion, Centro.pila, Centro.pila]
  dsimp only
  congr 1
  split_ifs with long
  · rw [List.length_cons] at long
    have full : centro.notificaciones.length = maxNotificaciones :=
      Nat.le_antisymm short (Nat.le_of_lt_succ long)
    rw [List.dropLast_eq_take, List.length_cons, Nat.add_sub_cancel, full, List.map_take,
      List.map_cons]
  · rw [List.map_cons, List.take_of_length_le]
    rw [List.length_cons, List.length_map]
    exact Nat.le_of_not_lt long

/-- To read a notification leaves its number. -/
theorem pila_leer (id : ℕ) (centro : Centro) : (marcarComoLeida id centro).pila = centro.pila := by
  rw [Centro.pila, Centro.pila, marcarComoLeida]
  dsimp only
  congr 1
  induction centro.notificaciones with
  | nil => rfl
  | cons notif rest ih =>
      by_cases same : notif.id = id
      · rw [List.replaceF, if_pos same]
        rfl
      · rw [List.replaceF, if_neg same]
        exact congrArg (List.cons notif.id) ih

/-- The notification on the top is removed. -/
theorem pila_eliminar {notif : Notificacion} {rest : List Notificacion} {centro : Centro}
    (split : centro.notificaciones = notif :: rest) :
    (eliminarNotificacion notif.id centro).pila = ⟨centro.pila.ids.tail, centro.idCounter⟩ := by
  rw [Centro.pila, Centro.pila, eliminarNotificacion]
  dsimp only
  rw [split, List.eraseP_cons_of_pos (by simp)]
  rfl

/-- Behind the buttons above the rows. -/
theorem pila_filas (click : Click) (centro : Centro) :
    (handleRows (enFila click) Centro.notificaciones centro).2.pila =
      if 450 ≤ click.x ∧ click.x ≤ 470 then ⟨centro.pila.ids.tail, centro.idCounter⟩
      else centro.pila := by
  split_ifs with column
  · cases split : centro.notificaciones with
    | nil =>
        have same : handleRows (enFila click) Centro.notificaciones centro = (none, centro) := by
          rw [handleRows, split]
          rfl
        rw [same, Centro.pila, split]
        rfl
    | cons notif rest =>
        have takes : enFila click centro 1 notif =
            some (.eliminar, eliminarNotificacion notif.id centro) :=
          if_pos ⟨column.1, column.2, by omega, Int.le_refl _⟩
        have head : handleRows (enFila click) Centro.notificaciones centro =
            (some (.eliminar, 1), eliminarNotificacion notif.id centro) := by
          rw [handleRows, firstRow, split, List.zipIdx_cons, List.findSome?_cons_of_isSome]
          · rw [takes]
            rfl
          · rw [takes]
            rfl
        rw [head]
        exact pila_eliminar split
  · refine @handleRows_keeps _ _ _ _ _ _ (fun after : Centro => after.pila = centro.pila) rfl ?_
    intro i notif action after taken
    rw [enFila, if_neg fun inside => column ⟨inside.1, inside.2.1⟩] at taken
    split_ifs at taken
    obtain ⟨-, rfl⟩ := Prod.mk.inj (Option.some.inj taken)
    exact pila_leer notif.id centro

/-- **A click does to the notifications what it does to the stack.** -/
theorem pila_click (azar : Azar) (click : Click) {centro : Centro} (ordered : centro.pila.Ordered) :
    (detectarClicks azar click centro).2.pila = centro.pila.click click := by
  have short : centro.notificaciones.length ≤ maxNotificaciones := by
    have short := ordered.short
    rwa [Centro.pila, List.length_map] at short
  rw [detectarClicks, pila_filas, Pila.click, barra]
  by_cases agregar : click.Within 120 240 90 115
  · have outside : ¬ (450 ≤ click.x ∧ click.x ≤ 470) := fun column => by
      have := agregar.2.1
      omega
    rw [if_pos agregar, if_pos agregar, if_neg outside]
    exact pila_agregar _ _ _ _ short
  · rw [if_neg agregar, if_neg agregar]
    by_cases limpiar : click.Within 250 370 90 115
    · have outside : ¬ (450 ≤ click.x ∧ click.x ≤ 470) := fun column => by
        have := limpiar.2.1
        omega
      rw [if_pos limpiar, if_pos limpiar, if_neg outside]
      rfl
    · rw [if_neg limpiar, if_neg limpiar]
      rfl

/-- **The notification centre is a stack.** After every run of clicks the numbers of the
notifications are those of a stack of at most five, on which one button puts the next number, one
empties it, and the `X` of every notification takes off the newest. They fall, so no two
notifications have one number. -/
theorem centro_is_stack (ahora : ℕ) (clicks : List (Azar × Click)) :
    (clicksRun clicks (inicio ahora)).pila =
        (clicks.map Prod.snd).foldl Pila.click ⟨[1], 1⟩ ∧
      (clicksRun clicks (inicio ahora)).pila.Ordered := by
  induction clicks using List.reverseRecOn with
  | nil =>
      refine ⟨rfl, List.pairwise_singleton .., fun id member => ?_, Nat.le_add_left 1 4⟩
      exact Nat.le_of_eq (List.mem_singleton.mp member)
  | append_singleton clicks click ih =>
      obtain ⟨same, ordered⟩ := ih
      have step : clicksRun (clicks ++ [click]) (inicio ahora) =
          (detectarClicks click.1 click.2 (clicksRun clicks (inicio ahora))).2 :=
        List.foldl_concat ..
      rw [step, pila_click click.1 click.2 ordered]
      refine ⟨?_, ordered.click click.2⟩
      rw [same, List.map_append, List.foldl_append]
      rfl

end Notificaciones

/-! ## The task manager -/

namespace GestorTareas

def clicksRun (clicks : List Click) : Gestor :=
  clicks.foldl (fun gestor click => (detectarClicks click gestor).2) default

/-- The processes are as at the start, and no other than the first one is selected. -/
structure Untouched (gestor : Gestor) : Prop where
  procesos : gestor.procesos = procesosSimulados
  simulados : gestor.simulados = procesosSimulados
  seleccionado : gestor.seleccionado = none ∨ gestor.seleccionado = some 1

/-- The first process is one of the system. -/
theorem detener_kernel : detener 1 procesosSimulados = procesosSimulados := rfl

theorem Untouched.barra {gestor : Gestor} (untouched : Untouched gestor) (click : Click) :
    Untouched (barra click gestor) := by
  rw [GestorTareas.barra]
  split_ifs with actualizar terminar detalles
  · exact ⟨untouched.simulados, untouched.simulados, untouched.seleccionado⟩
  · rcases untouched.seleccionado with none | first
    · rw [elegido, none]
      exact untouched
    · have kernel : elegido gestor = procesosSimulados.head? := by
        rw [elegido, first, untouched.procesos]
        rfl
      rw [kernel]
      refine ⟨?_, ?_, untouched.seleccionado⟩
      · change detener 1 gestor.procesos = procesosSimulados
        rw [untouched.procesos, detener_kernel]
      · change detener 1 gestor.simulados = procesosSimulados
        rw [untouched.simulados, detener_kernel]
  · exact ⟨untouched.procesos, untouched.simulados, untouched.seleccionado⟩
  · exact untouched

theorem Untouched.click {gestor : Gestor} (untouched : Untouched gestor) (click : Click) :
    Untouched (detectarClicks click gestor).2 := by
  have behind := untouched.barra click
  refine handleRows_uniform behind ?_ ?_
  · intro i proc j proc' none
    rw [enFila] at none ⊢
    split_ifs at none with inside
    refine if_neg fun other => inside ⟨other.1, other.2.1, Int.le_refl _, ?_⟩
    omega
  · intro proc action after taken
    rw [enFila] at taken
    split_ifs at taken
    obtain ⟨-, rfl⟩ := Prod.mk.inj (Option.some.inj taken)
    exact ⟨behind.procesos, behind.simulados, .inr rfl⟩

/-- **No process is ever stopped.** Each click on the rows selects the first process, whatever it
is on, and so does a click on the buttons. That process is one of the system, which the button to
stop refuses. -/
theorem no_process_stopped (clicks : List Click) : Untouched (clicksRun clicks) := by
  induction clicks using List.reverseRecOn with
  | nil => exact ⟨rfl, rfl, .inl rfl⟩
  | append_singleton clicks click ih =>
      have step : clicksRun (clicks ++ [click]) = (detectarClicks click (clicksRun clicks)).2 :=
        List.foldl_concat ..
      rw [step]
      exact ih.click click

end GestorTareas

/-! ## The clipboard history -/

namespace Portapapeles

/-- The texts that the application adds at its start, the last one first. -/
def textosInicio : List Text :=
  [literal "Haz click en un elemento para copiarlo", literal "Aqu se guardan tus textos copiados",
    literal "Bienvenido al historial del portapapeles"]

/-- The state after the start of the application. -/
def inicio (ahora : ℕ) : Historia :=
  textosInicio.foldr (fun texto historia => agregarAlHistorial texto ahora historia) ⟨[], none⟩

def clicksRun (clicks : List (Azar × Click)) (historia : Historia) : Historia :=
  clicks.foldl (fun historia click => (detectarClicks click.1 click.2 historia).2) historia

/-- The texts that were added since the history was emptied, the last one first. -/
def anadidos (textos : List Text) (azar : Azar) (click : Click) : List Text :=
  if click.Within 70 190 90 115 then (textosPrueba azar.numero azar.fecha).get azar.texto :: textos
  else if click.Within 200 320 90 115 then []
  else textos

/-- The history has the last of these texts, each once where it was added several times in a row,
and no other entry than the first one is selected. -/
structure Shows (textos : List Text) (historia : Historia) : Prop where
  historial : historia.historial.map Item.texto =
    (textos.destutter (· ≠ ·)).take maxHistorial
  seleccionado : historia.seleccionado = none ∨ historia.seleccionado = some 1

theorem head?_destutter (textos : List Text) :
    (textos.destutter (· ≠ ·)).head? = textos.head? := by
  induction textos with
  | nil => rfl
  | cons texto rest ih =>
      cases rest with
      | nil => rfl
      | cons texto' rest =>
          rw [List.destutter_cons_cons]
          split_ifs with differs
          · rfl
          · obtain rfl : texto = texto' := not_not.mp differs
            rw [← List.destutter_cons', ih]
            rfl

theorem destutter_cons_of_head {texto : Text} {textos : List Text}
    (same : textos.head? = some texto) :
    (texto :: textos).destutter (· ≠ ·) = textos.destutter (· ≠ ·) := by
  obtain ⟨rest, rfl⟩ := List.head?_eq_some_iff.mp same
  rw [List.destutter_cons_cons, if_neg (not_not.mpr rfl), List.destutter_cons']

theorem destutter_cons_of_ne {texto : Text} {textos : List Text}
    (differs : textos.head? ≠ some texto) :
    (texto :: textos).destutter (· ≠ ·) = texto :: textos.destutter (· ≠ ·) := by
  cases textos with
  | nil => rfl
  | cons texto' rest =>
      have other : texto ≠ texto' := fun same => differs (congrArg some same.symm)
      rw [List.destutter_cons_cons, if_pos other, List.destutter_cons']

/-- The head of the history is the last text that was added. -/
theorem Shows.head? {textos : List Text} {historia : Historia} (shows : Shows textos historia) :
    historia.historial.head?.map Item.texto = textos.head? := by
  rw [← List.head?_map, shows.historial, ← head?_destutter textos]
  cases textos.destutter (· ≠ ·) <;> rfl

theorem Shows.agregar {textos : List Text} {historia : Historia} (shows : Shows textos historia)
    {texto : Text} (some : texto ≠ []) (ahora : ℕ) :
    Shows (texto :: textos) (agregarAlHistorial texto ahora historia) := by
  rw [agregarAlHistorial]
  by_cases same : historia.historial.head?.map Item.texto = Option.some texto
  · rw [if_pos (.inr same)]
    refine ⟨?_, shows.seleccionado⟩
    rw [destutter_cons_of_head (shows.head?.symm.trans same)]
    exact shows.historial
  · rw [if_neg (not_or_intro some same)]
    refine ⟨?_, shows.seleccionado⟩
    have differs : textos.head? ≠ Option.some texto := shows.head? ▸ same
    have bound : historia.historial.length ≤ maxHistorial := by
      rw [← List.length_map Item.texto, shows.historial]
      exact List.length_take_le ..
    rw [destutter_cons_of_ne differs]
    dsimp only
    change _ = texto :: ((textos.destutter (· ≠ ·)).take 19)
    have shorter : (textos.destutter (· ≠ ·)).take 19 =
        ((historia.historial.map Item.texto).take 19) := by
      rw [shows.historial, List.take_take]
      rfl
    rw [shorter]
    split_ifs with long
    · have full : historia.historial.length = 20 :=
        Nat.le_antisymm bound (Nat.le_of_lt_succ long)
      rw [List.dropLast_eq_take, List.length_cons, Nat.add_sub_cancel, full, List.map_take]
      rfl
    · rw [List.map_cons, List.take_of_length_le]
      rw [List.length_map]
      exact Nat.le_of_lt_succ (Nat.lt_of_not_le fun past => long (Nat.lt_succ_of_le past))

/-- **A click adds a text, empties the history or leaves it as it is.** -/
theorem Shows.click {textos : List Text} {historia : Historia} (shows : Shows textos historia)
    (azar : Azar) (click : Click) :
    Shows (anadidos textos azar click) (detectarClicks azar click historia).2 := by
  have behind : Shows (anadidos textos azar click) (barra azar click historia) := by
    rw [anadidos, barra]
    split_ifs with agregar limpiar
    · exact shows.agregar (textosPrueba_ne_nil (List.get_mem ..)) azar.ahora
    · exact ⟨rfl, .inl rfl⟩
    · exact shows
  have notErased (y : ℤ) (buttons : 450 ≤ click.x ∧ click.x ≤ 510)
      (notCopied : ¬ (click.x ≥ 450 ∧ click.x ≤ 510 ∧ y + 10 ≥ y ∧ y + 35 ≤ y + 35)) : False :=
    notCopied ⟨buttons.1, buttons.2, by omega, Int.le_refl _⟩
  refine handleRows_uniform behind ?_ ?_
  · intro i item j item' none
    rw [enFila] at none ⊢
    dsimp only at none ⊢
    split_ifs at none with copiar borrar seleccionar
    have columns : ¬ (click.x ≥ 70 ∧ click.x ≤ 530) := fun inside =>
      seleccionar ⟨inside.1, inside.2, Int.le_refl _, by omega⟩
    rw [if_neg fun inside => columns (by omega), if_neg fun inside => columns (by omega),
      if_neg fun inside => columns ⟨inside.1, inside.2.1⟩]
  · intro item action after taken
    rw [enFila] at taken
    dsimp only at taken
    split_ifs at taken with copiar borrar seleccionar
    · obtain ⟨-, rfl⟩ := Prod.mk.inj (Option.some.inj taken)
      exact behind
    · -- the button to copy takes every click in its columns
      exact (notErased _ ⟨borrar.1, borrar.2.1⟩ copiar).elim
    · obtain ⟨-, rfl⟩ := Prod.mk.inj (Option.some.inj taken)
      exact ⟨behind.historial, .inr rfl⟩

/-- **The clipboard history holds the last texts that were added.** After every run of clicks it
has the last 20 of the texts that were added since it was emptied, where a text that was added
several times in a row is one. No click removes a single text, and only the first entry is ever
selected. -/
theorem historial_is_last_texts (ahora : ℕ) (clicks : List (Azar × Click)) :
    Shows (clicks.foldl (fun textos click => anadidos textos click.1 click.2) textosInicio)
      (clicksRun clicks (inicio ahora)) := by
  induction clicks using List.reverseRecOn with
  | nil =>
      have empty : Shows [] ⟨[], none⟩ := ⟨rfl, .inl rfl⟩
      exact ((empty.agregar (by decide) ahora).agregar (by decide) ahora).agregar (by decide) ahora
  | append_singleton clicks click ih =>
      have step : clicksRun (clicks ++ [click]) (inicio ahora) =
          (detectarClicks click.1 click.2 (clicksRun clicks (inicio ahora))).2 :=
        List.foldl_concat ..
      rw [step, List.foldl_concat]
      exact ih.click click.1 click.2

end Portapapeles

/-! ## The file search -/

namespace Buscador

def clicksRun (clicks : List Click) : Busqueda :=
  clicks.foldl (fun estado click => (detectarClicks click estado).2)
    ⟨[], buscarArchivos [], none, false⟩

/-- The terms that the window ever searches for. -/
def terminos : List Text := [[], literal "app", literal "documento", literal "config"]

/-- The results are those of the term that is shown, which is one of a few, and no other result
than the first one is selected. -/
structure OfFilter (estado : Busqueda) : Prop where
  busqueda : estado.busqueda ∈ terminos
  resultados : estado.resultados = buscarArchivos estado.busqueda
  seleccionado : estado.seleccionado = none ∨ estado.seleccionado = some 1

theorem OfFilter.filtrar {estado : Busqueda} (ofFilter : OfFilter estado) {tipo : Text}
    (known : tipo ∈ terminos) : OfFilter (filtrar tipo estado) :=
  ⟨known, rfl, ofFilter.seleccionado⟩

theorem OfFilter.barra {estado : Busqueda} (ofFilter : OfFilter estado) (click : Click) :
    OfFilter (barra click estado) := by
  rw [Buscador.barra]
  split_ifs with campo buscar limpiar apps docs config
  · exact ⟨ofFilter.busqueda, ofFilter.resultados, ofFilter.seleccionado⟩
  · exact ⟨ofFilter.busqueda, rfl, ofFilter.seleccionado⟩
  · exact ⟨List.mem_cons_self, rfl, .inl rfl⟩
  · exact ofFilter.filtrar (by decide)
  · exact ofFilter.filtrar (by decide)
  · exact ofFilter.filtrar (by decide)
  · exact ofFilter

theorem OfFilter.click {estado : Busqueda} (ofFilter : OfFilter estado) (click : Click) :
    OfFilter (detectarClicks click estado).2 := by
  have behind := ofFilter.barra click
  refine handleRows_uniform behind ?_ ?_
  · intro i archivo j archivo' none
    rw [enFila] at none ⊢
    split_ifs at none with abrir ver seleccionar
    have columns : ¬ (click.x ≥ 70 ∧ click.x ≤ 530) := fun inside =>
      seleccionar ⟨inside.1, inside.2, Int.le_refl _, by omega⟩
    rw [if_neg fun inside => columns (by omega), if_neg fun inside => columns (by omega),
      if_neg fun inside => columns ⟨inside.1, inside.2.1⟩]
  · intro archivo action after taken
    rw [enFila] at taken
    split_ifs at taken with abrir ver seleccionar
    · obtain ⟨-, rfl⟩ := Prod.mk.inj (Option.some.inj taken)
      exact behind
    · obtain ⟨-, rfl⟩ := Prod.mk.inj (Option.some.inj taken)
      exact behind
    · obtain ⟨-, rfl⟩ := Prod.mk.inj (Option.some.inj taken)
      exact ⟨behind.busqueda, behind.resultados, .inr rfl⟩

/-- No filter finds the log of the system. -/
theorem log_not_found : ∀ termino ∈ terminos, ∀ archivo ∈ buscarArchivos termino,
    archivo.nombre ≠ literal "sistema.log" := by
  decide +kernel

/-- **The file search finds what one of its filters finds.** After every run of clicks the results
are those of the term that is shown, and this is empty or one of the three filters. So the log of
the system is never found. -/
theorem resultados_of_filter (clicks : List Click) : OfFilter (clicksRun clicks) ∧
    ∀ archivo ∈ (clicksRun clicks).resultados, archivo.nombre ≠ literal "sistema.log" := by
  have ofFilter : OfFilter (clicksRun clicks) := by
    induction clicks using List.reverseRecOn with
    | nil => exact ⟨List.mem_cons_self, rfl, .inl rfl⟩
    | append_singleton clicks click ih =>
        have step : clicksRun (clicks ++ [click]) = (detectarClicks click (clicksRun clicks)).2 :=
          List.foldl_concat ..
        rw [step]
        exact ih.click click
  refine ⟨ofFilter, ?_⟩
  rw [ofFilter.resultados]
  exact log_not_found _ ofFilter.busqueda

end Buscador

end CocosOS.Apps
