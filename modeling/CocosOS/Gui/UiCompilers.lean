import CocosOS.Library.CWriter

/-!
# The compilers of user interfaces

Two programs turn a decoded JSON document into C: `installer/installer_complier.lua` and
`GUI/ui_compiler.lua`. Both write constants with the palette, a function that sets up the interface,
and, if the document has components, a function that draws them in order. The installer has a
handler of its actions behind that.

Both put the strings of the document between quotes as they are. The C text is the intended unit
exactly if no string of the document has a quote, a backslash, a newline or a carriage return
(`Emitter.parses_iff`), and with a clean palette the components are drawn exactly if their strings
have none (`Emitter.preserves_iff`).
-/

set_option autoImplicit false

namespace CocosOS.Gui

open Library.CLexer

/-! ## Documents -/

/-- `c.type`, where all types that neither program knows are one. -/
inductive ComponentType where
  | label
  | button
  | listbox
  | radio
  | checkbox
  | progress
  | other
deriving DecidableEq

/-- A component. What a document leaves out has a default where it is written. -/
structure Component where
  type : ComponentType
  x : Option ℤ := none
  y : Option ℤ := none
  w : Option ℤ := none
  h : Option ℤ := none
  text : Option Text := none
  color : Option Text := none
  fontSize : Option ℤ := none
  action : Option Text := none
  id : Option Text := none
  checked : Option Bool := none
  value : Option ℤ := none
  max : Option ℤ := none

structure InstallerDocument where
  title : Text
  background : Text
  accent : Text
  text : Text
  button : Text
  buttonHover : Text
  panelWidth : ℤ
  panelHeight : ℤ
  components : Option (List Component)

structure UiDocument where
  background : Text
  accent : Text
  panelHeight : ℤ
  wallpaperPath : Text
  cursorPath : Text
  cursorSize : ℤ
  components : Option (List Component)

/-- The block for the components, which both programs have. -/
def renderText (head : Text) (component : Component → Text) : Option (List Component) → Text
  | some components => head ++ components.flatMap component ++ "\x7d\n".toList
  | none => []

/-! ## The installer -/

/-- What the loop of `installer_complier.lua` writes for a component. -/
def installerComponent (c : Component) : Text :=
  match c.type with
  | .label =>
    ["    draw_text(".toList, intText (c.x.getD 0), ", ".toList, intText (c.y.getD 0),
      ", \"".toList, c.text.getD [], "\", \"".toList, c.color.getD "#ffffff".toList, "\", ".toList,
      intText (c.fontSize.getD 12), ");\n".toList].flatten
  | .button =>
    ["    draw_button(".toList, intText (c.x.getD 0), ", ".toList, intText (c.y.getD 0),
      ", ".toList, intText (c.w.getD 50), ", ".toList, intText (c.h.getD 20), ", \"".toList,
      c.text.getD [], "\", \"".toList, c.action.getD [], "\");\n".toList].flatten
  | .listbox =>
    ["    draw_listbox(".toList, intText (c.x.getD 0), ", ".toList, intText (c.y.getD 0),
      ", ".toList, intText (c.w.getD 100), ", ".toList, intText (c.h.getD 100), ", \"".toList,
      c.id.getD [], "\");\n".toList].flatten
  | .radio =>
    ["    draw_radio_group(".toList, intText (c.x.getD 0), ", ".toList, intText (c.y.getD 0),
      ", \"".toList, c.id.getD [], "\");\n".toList].flatten
  | .checkbox =>
    ["    draw_checkbox(".toList, intText (c.x.getD 0), ", ".toList, intText (c.y.getD 0),
      ", \"".toList, c.text.getD [], "\", ".toList,
      if c.checked.getD false then "true".toList else "false".toList, ");\n".toList].flatten
  | .progress =>
    ["    draw_progress_bar(".toList, intText (c.x.getD 0), ", ".toList, intText (c.y.getD 0),
      ", ".toList, intText (c.w.getD 100), ", ".toList, intText (c.h.getD 20), ", ".toList,
      intText (c.value.getD 0), ", ".toList, intText (c.max.getD 100), ");\n".toList].flatten
  | .other => []

/-- What is written in front of the components, behind the directive. -/
def installerHeader (data : InstallerDocument) : Text :=
  ["const char* INSTALLER_TITLE = \"".toList ++ (data.title ++ "\";\n".toList),
    "const char* INSTALLER_BG = \"".toList ++ (data.background ++ "\";\n".toList),
    "const char* INSTALLER_ACCENT = \"".toList ++ (data.accent ++ "\";\n".toList),
    "const char* INSTALLER_TEXT = \"".toList ++ (data.text ++ "\";\n".toList),
    "const char* INSTALLER_BUTTON = \"".toList ++ (data.button ++ "\";\n".toList),
    "const char* INSTALLER_BUTTON_HOVER = \"".toList ++ (data.buttonHover ++ "\";\n\n".toList),
    "const int INSTALLER_PANEL_W = ".toList ++ (intText data.panelWidth ++ ";\n".toList),
    "const int INSTALLER_PANEL_H = ".toList ++ (intText data.panelHeight ++ ";\n\n".toList),
    "void init_installer_ui() \x7b\n".toList,
    "    set_window_title(INSTALLER_TITLE);\n".toList,
    "    set_window_size(INSTALLER_PANEL_W, INSTALLER_PANEL_H);\n".toList,
    "    set_background_color(INSTALLER_BG);\n".toList,
    "\x7d\n\n".toList].flatten

/-- What is written behind the components. -/
def installerHandler : Text :=
  ["\nvoid handle_installer_action(const char* action) \x7b\n".toList,
    "    if (strcmp(action, \"start_install\") == 0) \x7b\n".toList,
    "        start_installation();\n".toList,
    "    \x7d else if (strcmp(action, \"show_advanced\") == 0) \x7b\n".toList,
    "        show_advanced_options();\n".toList,
    "    \x7d else if (strcmp(action, \"exit\") == 0) \x7b\n".toList,
    "        exit_installer();\n".toList,
    "    \x7d else if (strcmp(action, \"back\") == 0) \x7b\n".toList,
    "        go_back();\n".toList,
    "    \x7d else if (strcmp(action, \"next\") == 0) \x7b\n".toList,
    "        go_next();\n".toList,
    "    \x7d\n".toList,
    "\x7d\n".toList].flatten

/-- The text of `InstallerUI.c`. -/
def installerText (data : InstallerDocument) : Text :=
  "#include \"InstallerUI.h\"\n\n".toList ++ installerHeader data ++
    renderText "void render_installer_ui() \x7b\n".toList installerComponent data.components ++
    installerHandler

/-! ## The desktop -/

/-- What the loop of `ui_compiler.lua` writes for a component. -/
def uiComponent (c : Component) : Text :=
  match c.type with
  | .label =>
    ["    draw_text(".toList, intText (c.x.getD 0), ", ".toList, intText (c.y.getD 0),
      ", \"".toList, c.text.getD [], "\");\n".toList].flatten
  | .button =>
    ["    draw_button(".toList, intText (c.x.getD 0), ", ".toList, intText (c.y.getD 0),
      ", ".toList, intText (c.w.getD 50), ", ".toList, intText (c.h.getD 20), ", \"".toList,
      c.text.getD [], "\");\n".toList].flatten
  | _ => []

def uiHeader (data : UiDocument) : Text :=
  ["const char* UI_BG = \"".toList ++ (data.background ++ "\";\n".toList),
    "const char* UI_ACCENT = \"".toList ++ (data.accent ++ "\";\n".toList),
    "const int PANEL_H = ".toList ++ (intText data.panelHeight ++ ";\n\n".toList),
    "void init_ui_settings() \x7b\n".toList,
    "    set_wallpaper(\"".toList ++ (data.wallpaperPath ++ "\");\n".toList),
    "    set_cursor(\"".toList ++ (data.cursorPath ++ ("\", ".toList ++
      (intText data.cursorSize ++ ");\n".toList))),
    "\x7d\n\n".toList].flatten

/-- The text of `UI.c`. -/
def uiText (data : UiDocument) : Text :=
  "#include \"UI.h\"\n\n".toList ++ uiHeader data ++
    renderText "void render_ui() \x7b\n".toList uiComponent data.components

/-! ## The meaning of a document -/

def num (value : Option ℤ) (default : ℤ) : Expr := .int (value.getD default)

def str (value : Option Text) (default : String) : Expr := .string (value.getD default.toList)

/-- The call that draws a component in the installer. -/
def installerDraw (c : Component) : Option Call :=
  match c.type with
  | .label =>
    some ⟨"draw_text".toList,
      [num c.x 0, num c.y 0, str c.text "", str c.color "#ffffff", num c.fontSize 12]⟩
  | .button =>
    some ⟨"draw_button".toList,
      [num c.x 0, num c.y 0, num c.w 50, num c.h 20, str c.text "", str c.action ""]⟩
  | .listbox =>
    some ⟨"draw_listbox".toList, [num c.x 0, num c.y 0, num c.w 100, num c.h 100, str c.id ""]⟩
  | .radio => some ⟨"draw_radio_group".toList, [num c.x 0, num c.y 0, str c.id ""]⟩
  | .checkbox =>
    some ⟨"draw_checkbox".toList, [num c.x 0, num c.y 0, str c.text "",
      .name (if c.checked.getD false then "true".toList else "false".toList)]⟩
  | .progress =>
    some ⟨"draw_progress_bar".toList,
      [num c.x 0, num c.y 0, num c.w 100, num c.h 20, num c.value 0, num c.max 100]⟩
  | .other => none

/-- The call that draws a component on the desktop, which has labels and buttons only. -/
def uiDraw (c : Component) : Option Call :=
  match c.type with
  | .label => some ⟨"draw_text".toList, [num c.x 0, num c.y 0, str c.text ""]⟩
  | .button =>
    some ⟨"draw_button".toList, [num c.x 0, num c.y 0, num c.w 50, num c.h 20, str c.text ""]⟩
  | _ => none

/-- The calls of `init_installer_ui`. -/
def installerInit : List Call :=
  [⟨"set_window_title".toList, [.name "INSTALLER_TITLE".toList]⟩,
    ⟨"set_window_size".toList,
      [.name "INSTALLER_PANEL_W".toList, .name "INSTALLER_PANEL_H".toList]⟩,
    ⟨"set_background_color".toList, [.name "INSTALLER_BG".toList]⟩]

def InstallerDocument.header (data : InstallerDocument) : CUnit :=
  [.string "INSTALLER_TITLE".toList data.title, .string "INSTALLER_BG".toList data.background,
    .string "INSTALLER_ACCENT".toList data.accent, .string "INSTALLER_TEXT".toList data.text,
    .string "INSTALLER_BUTTON".toList data.button,
    .string "INSTALLER_BUTTON_HOVER".toList data.buttonHover,
    .int "INSTALLER_PANEL_W".toList data.panelWidth,
    .int "INSTALLER_PANEL_H".toList data.panelHeight,
    .function "init_installer_ui".toList [] (installerInit.map Call.statement)]

def InstallerDocument.palette (data : InstallerDocument) : List Text :=
  [data.title, data.background, data.accent, data.text, data.button, data.buttonHover]

/-- The calls of `init_ui_settings`. -/
def uiInit (data : UiDocument) : List Call :=
  [⟨"set_wallpaper".toList, [.string data.wallpaperPath]⟩,
    ⟨"set_cursor".toList, [.string data.cursorPath, .int data.cursorSize]⟩]

def UiDocument.header (data : UiDocument) : CUnit :=
  [.string "UI_BG".toList data.background, .string "UI_ACCENT".toList data.accent,
    .int "PANEL_H".toList data.panelHeight,
    .function "init_ui_settings".toList [] ((uiInit data).map Call.statement)]

def UiDocument.palette (data : UiDocument) : List Text :=
  [data.background, data.accent, data.wallpaperPath, data.cursorPath]

/-- One test of the handler. -/
def actionTest (action function : String) : Test :=
  ⟨"strcmp".toList, [.name "action".toList, .string action.toList], function.toList⟩

def handlerUnit : CUnit :=
  [.function "handle_installer_action".toList ["action".toList]
    [.cascade [actionTest "start_install" "start_installation",
      actionTest "show_advanced" "show_advanced_options", actionTest "exit" "exit_installer",
      actionTest "back" "go_back", actionTest "next" "go_next"]]]

/-! ## What the programs write means what it should -/

theorem installerComponent_eq (c : Component) :
    installerComponent c = (installerDraw c).elim [] Call.text := by
  obtain ⟨type, x, y, w, h, text, color, fontSize, action, id, checked, value, max⟩ := c
  delta installerComponent installerDraw Call.text
  cases type with
  | label => simp [argsText, Expr.text, num, str]
  | button => simp [argsText, Expr.text, num, str]
  | listbox => simp [argsText, Expr.text, num, str]
  | radio => simp [argsText, Expr.text, num, str]
  | checkbox => simp [argsText, Expr.text, num, str]
  | progress => simp [argsText, Expr.text, num]
  | other => rfl

theorem uiComponent_eq (c : Component) : uiComponent c = (uiDraw c).elim [] Call.text := by
  obtain ⟨type, x, y, w, h, text, color, fontSize, action, id, checked, value, max⟩ := c
  delta uiComponent uiDraw Call.text
  cases type with
  | label => simp [argsText, Expr.text, num, str]
  | button => simp [argsText, Expr.text, num, str]
  | listbox => rfl
  | radio => rfl
  | checkbox => rfl
  | progress => rfl
  | other => rfl

/-- A string constant as both programs write it. -/
theorem writes_const (name opening value : Text) (isWord : IsWord name)
    (opens : opening = "const char* ".toList ++ (name ++ " = ".toList) ++ ['"']) :
    Writes (opening ++ (value ++ "\";\n".toList)) (Declaration.string name value).tokens [value] :=
  writes_string name opening _ value isWord opens rfl (by decide +kernel : Plain ";\n".toList _)

/-- A number constant with an empty line behind it. -/
theorem writes_last (name opening : Text) (value : ℤ) (isWord : IsWord name)
    (opens : opening = "const int ".toList ++ (name ++ " = ".toList)) :
    Writes (opening ++ (intText value ++ ";\n\n".toList)) (Declaration.int name value).tokens [] :=
  writes_int name opening _ value isWord opens (by decide +kernel) (by decide +kernel)

theorem writes_installerHeader (data : InstallerDocument) :
    Writes (installerHeader data) (data.header.flatMap Declaration.tokens) data.palette := by
  have init : Plain ["void init_installer_ui() \x7b\n".toList,
      "    set_window_title(INSTALLER_TITLE);\n".toList,
      "    set_window_size(INSTALLER_PANEL_W, INSTALLER_PANEL_H);\n".toList,
      "    set_background_color(INSTALLER_BG);\n".toList, "\x7d\n\n".toList].flatten
      ([Declaration.function "init_installer_ui".toList []
        (installerInit.map Call.statement)].flatMap Declaration.tokens) := by
    decide +kernel
  have width := writes_int "INSTALLER_PANEL_W".toList "const int INSTALLER_PANEL_W = ".toList
    ";\n".toList data.panelWidth (by decide +kernel) (by decide +kernel) (by decide +kernel)
    (by decide +kernel)
  have height := writes_last "INSTALLER_PANEL_H".toList "const int INSTALLER_PANEL_H = ".toList
    data.panelHeight (by decide +kernel) (by decide +kernel)
  have hover := writes_string "INSTALLER_BUTTON_HOVER".toList
    "const char* INSTALLER_BUTTON_HOVER = \"".toList "\";\n\n".toList data.buttonHover
    (by decide +kernel) (by decide +kernel) rfl
    (by decide +kernel : Plain ";\n\n".toList _)
  have button := writes_const "INSTALLER_BUTTON".toList
    "const char* INSTALLER_BUTTON = \"".toList data.button (by decide +kernel) (by decide +kernel)
  have text := writes_const "INSTALLER_TEXT".toList
    "const char* INSTALLER_TEXT = \"".toList data.text (by decide +kernel) (by decide +kernel)
  have accent := writes_const "INSTALLER_ACCENT".toList
    "const char* INSTALLER_ACCENT = \"".toList data.accent (by decide +kernel) (by decide +kernel)
  have background := writes_const "INSTALLER_BG".toList
    "const char* INSTALLER_BG = \"".toList data.background (by decide +kernel) (by decide +kernel)
  have title := writes_const "INSTALLER_TITLE".toList
    "const char* INSTALLER_TITLE = \"".toList data.title (by decide +kernel) (by decide +kernel)
  exact title.declaration (background.declaration (accent.declaration (text.declaration
    (button.declaration (hover.declaration (width.declaration
      (height.declaration init.writes)))))))

theorem writes_uiHeader (data : UiDocument) :
    Writes (uiHeader data) (data.header.flatMap Declaration.tokens) data.palette := by
  have shape : ["void init_ui_settings() \x7b\n".toList,
      "    set_wallpaper(\"".toList ++ (data.wallpaperPath ++ "\");\n".toList),
      "    set_cursor(\"".toList ++ (data.cursorPath ++ ("\", ".toList ++
        (intText data.cursorSize ++ ");\n".toList))), "\x7d\n\n".toList].flatten =
      functionText "init_ui_settings".toList (uiInit data) ++ "\n".toList := by
    delta functionText headText uiInit Call.text
    simp [argsText, Expr.text]
  have named : ∀ call ∈ uiInit data, call.Named := by
    simp [uiInit, Call.Named, Expr.Named, IsWord]
    decide
  have blank : Plain "\n".toList [] := by decide +kernel
  have isWord : IsWord "init_ui_settings".toList := by decide +kernel
  have init := (writes_functionText isWord named).append blank.writes
  rw [← shape] at init
  have height := writes_last "PANEL_H".toList "const int PANEL_H = ".toList
    data.panelHeight (by decide +kernel) (by decide +kernel)
  have accent := writes_const "UI_ACCENT".toList "const char* UI_ACCENT = \"".toList data.accent
    (by decide +kernel) (by decide +kernel)
  have background := writes_const "UI_BG".toList "const char* UI_BG = \"".toList data.background
    (by decide +kernel) (by decide +kernel)
  exact background.declaration (accent.declaration (height.declaration init))

/-! ## What both programs have in common -/

/-- What a program writes around the components, and what that means. -/
structure Emitter where
  front : Text
  directive : Text
  header : Text
  headerUnit : CUnit
  palette : List Text
  head : Text
  render : Text
  component : Component → Text
  draw : Component → Option Call
  contents : Component → List Text
  handler : Text
  handlerUnit : CUnit
  reads_front : run .start front = some ([.directive directive], .start)
  writes_header : Writes header (headerUnit.flatMap Declaration.tokens) palette
  head_eq : head = headText render
  isWord : IsWord render
  ne : render ≠ "void".toList
  fresh : .word render ∉ headerUnit.flatMap Declaration.tokens
  component_eq : ∀ c, component c = (draw c).elim [] Call.text
  named : ∀ c call, draw c = some call → call.Named
  contents_eq : ∀ c, (draw c).elim [] (fun call => strings call.args) = contents c
  safe : Safe handler
  reads_handler : run .start handler = some (handlerUnit.flatMap Declaration.tokens, .start)
  joined : join (handlerUnit.flatMap Declaration.tokens) = handlerUnit.flatMap Declaration.tokens
  only : bodies render (headerUnit ++ handlerUnit) = []

namespace Emitter

variable (e : Emitter) (components : Option (List Component))

def text : Text := e.front ++ e.header ++ renderText e.head e.component components ++ e.handler

/-- The calls for the components, in order. -/
def calls (components : List Component) : List Call := components.filterMap e.draw

def renderUnit : CUnit :=
  components.toList.map fun components =>
    .function e.render [] ((e.calls components).map Call.statement)

def unit : CUnit :=
  .directive e.directive :: (e.headerUnit ++ e.renderUnit components ++ e.handlerUnit)

/-- Some unit can be read in which the components are drawn, each by its call and in order. -/
def Preserves : Prop :=
  ∃ unit, Parses (e.text components) unit ∧ bodies e.render unit =
    components.toList.map fun components => (e.calls components).map Call.statement

/-- The strings of the components that are written are clean. -/
def ComponentsClean : Prop := ∀ c ∈ components.getD [], ∀ s ∈ e.contents c, Clean s

theorem text_calls (list : List Component) :
    list.flatMap e.component = (e.calls list).flatMap Call.text := by
  induction list with
  | nil => rfl
  | cons c list ih =>
      rw [List.flatMap_cons, ih, e.component_eq]
      show _ = (List.filterMap e.draw (c :: list)).flatMap Call.text
      rw [List.filterMap_cons]
      cases e.draw c with
      | none => rfl
      | some call => rfl

theorem named_calls (list : List Component) : ∀ call ∈ e.calls list, call.Named := by
  intro call member
  obtain ⟨c, -, drawn⟩ := List.mem_filterMap.mp member
  exact e.named c call drawn

theorem clean_calls_iff (list : List Component) :
    (∀ call ∈ e.calls list, ∀ s ∈ strings call.args, Clean s) ↔
      e.ComponentsClean (some list) := by
  constructor
  · intro clean c member s written
    rw [← e.contents_eq] at written
    cases drawn : e.draw c with
    | none =>
        rw [drawn] at written
        exact absurd written List.not_mem_nil
    | some call =>
        rw [drawn] at written
        exact clean call (List.mem_filterMap.mpr ⟨c, member, drawn⟩) s written
  · intro clean call member s written
    obtain ⟨c, given, drawn⟩ := List.mem_filterMap.mp member
    refine clean c given s ?_
    rw [← e.contents_eq, drawn]
    exact written

theorem bodies_unit :
    bodies e.render (e.unit components) =
      components.toList.map fun components => (e.calls components).map Call.statement := by
  have only := e.only
  rw [bodies, List.filterMap_append, List.append_eq_nil_iff] at only
  rw [bodies, unit, List.filterMap_cons, List.filterMap_append, List.filterMap_append, only.1,
    only.2, renderUnit]
  cases components with
  | none => rfl
  | some list => simp

theorem tokens_unit (list : List Component) :
    (e.unit (some list)).flatMap Declaration.tokens = [.directive e.directive] ++
      ((e.headerUnit.flatMap Declaration.tokens ++
        (Declaration.function e.render [] ((e.calls list).map Call.statement)).tokens) ++
          e.handlerUnit.flatMap Declaration.tokens) := by
  simp [unit, renderUnit, Declaration.tokens]

theorem text_some (list : List Component) :
    e.text (some list) =
      e.front ++ ((e.header ++ functionText e.render (e.calls list)) ++ e.handler) := by
  rw [text, renderText, text_calls, e.head_eq, List.append_assoc e.front,
    List.append_assoc e.front]
  rfl

theorem front_not_string (s : Text) : .string s ∉ [Token.directive e.directive] := by
  intro member
  exact nomatch List.mem_singleton.mp member

/-- **The text is the intended unit exactly if all strings of the document are clean.** -/
theorem parses_iff :
    Parses (e.text components) (e.unit components) ↔
      (∀ s ∈ e.palette, Clean s) ∧ e.ComponentsClean components := by
  cases components with
  | none =>
      have means : (e.unit none).flatMap Declaration.tokens = [.directive e.directive] ++
          (e.headerUnit.flatMap Declaration.tokens ++
            e.handlerUnit.flatMap Declaration.tokens) := by
        simp [unit, renderUnit, Declaration.tokens]
      have whole := e.writes_header.parses_iff e.reads_front e.front_not_string e.safe
        e.reads_handler e.joined means
      rw [text, renderText, List.append_nil, List.append_assoc, whole]
      exact (and_iff_left fun c member => absurd member List.not_mem_nil).symm
  | some list =>
      have writes := e.writes_header.append (writes_functionText e.isWord (e.named_calls list))
      have whole := writes.parses_iff e.reads_front e.front_not_string e.safe e.reads_handler
        e.joined (e.tokens_unit list)
      rw [text_some, whole, ← e.clean_calls_iff list, List.forall_mem_append,
        List.forall_mem_flatMap]

/-- **With a clean palette the components are preserved exactly if their strings are clean.** -/
theorem preserves_iff (clean : ∀ s ∈ e.palette, Clean s) :
    e.Preserves components ↔ e.ComponentsClean components := by
  cases components with
  | none =>
      refine iff_of_true ⟨e.unit none, ?_, e.bodies_unit none⟩ ?_
      · exact (e.parses_iff none).mpr ⟨clean, fun c member => absurd member List.not_mem_nil⟩
      · exact fun c member => absurd member List.not_mem_nil
  | some list =>
      rw [← e.clean_calls_iff list]
      have fresh : .word e.render ∉ [Token.directive e.directive] ++
          e.headerUnit.flatMap Declaration.tokens := by
        intro member
        rcases List.mem_append.mp member with early | late
        · exact nomatch List.mem_singleton.mp early
        · exact e.fresh late
      have only := e.bodies_unit (some list)
      have iff := e.writes_header.exists_bodies_iff clean e.reads_front e.front_not_string e.isWord
        e.ne fresh (e.named_calls list) e.safe e.reads_handler e.joined (e.tokens_unit list) only
      rw [← text_some] at iff
      exact iff

end Emitter

/-! ## The two programs -/

/-- The strings of a component that the installer writes. -/
def installerStrings (c : Component) : List Text :=
  match c.type with
  | .label => [c.text.getD [], c.color.getD "#ffffff".toList]
  | .button => [c.text.getD [], c.action.getD []]
  | .listbox => [c.id.getD []]
  | .radio => [c.id.getD []]
  | .checkbox => [c.text.getD []]
  | .progress => []
  | .other => []

/-- The strings of a component that the desktop writes. -/
def uiStrings (c : Component) : List Text :=
  match c.type with
  | .label => [c.text.getD []]
  | .button => [c.text.getD []]
  | _ => []

theorem installerDraw_strings (c : Component) :
    (installerDraw c).elim [] (fun call => strings call.args) = installerStrings c := by
  obtain ⟨type, x, y, w, h, text, color, fontSize, action, id, checked, value, max⟩ := c
  cases type with
  | label => rfl
  | button => rfl
  | listbox => rfl
  | radio => rfl
  | checkbox => rfl
  | progress => rfl
  | other => rfl

theorem uiDraw_strings (c : Component) :
    (uiDraw c).elim [] (fun call => strings call.args) = uiStrings c := by
  obtain ⟨type, x, y, w, h, text, color, fontSize, action, id, checked, value, max⟩ := c
  cases type with
  | label => rfl
  | button => rfl
  | listbox => rfl
  | radio => rfl
  | checkbox => rfl
  | progress => rfl
  | other => rfl

theorem named_num (value : Option ℤ) (default : ℤ) : (num value default).Named := trivial

theorem named_str (value : Option Text) (default : String) : (str value default).Named := trivial

theorem named_installerDraw (c : Component) (call : Call) (drawn : installerDraw c = some call) :
    call.Named := by
  obtain ⟨type, x, y, w, h, text, color, fontSize, action, id, checked, value, max⟩ := c
  cases type with
  | label =>
      obtain rfl := Option.some.inj drawn
      have isWord : IsWord "draw_text".toList := by decide +kernel
      exact ⟨isWord, by simp [named_num, named_str]⟩
  | button =>
      obtain rfl := Option.some.inj drawn
      have isWord : IsWord "draw_button".toList := by decide +kernel
      exact ⟨isWord, by simp [named_num, named_str]⟩
  | listbox =>
      obtain rfl := Option.some.inj drawn
      have isWord : IsWord "draw_listbox".toList := by decide +kernel
      exact ⟨isWord, by simp [named_num, named_str]⟩
  | radio =>
      obtain rfl := Option.some.inj drawn
      have isWord : IsWord "draw_radio_group".toList := by decide +kernel
      exact ⟨isWord, by simp [named_num, named_str]⟩
  | checkbox =>
      obtain rfl := Option.some.inj drawn
      have isWord : IsWord "draw_checkbox".toList := by decide +kernel
      have flag : (Expr.name (if checked.getD false then "true".toList
          else "false".toList)).Named := by
        show IsWord _
        split <;> decide +kernel
      refine ⟨isWord, ?_⟩
      simp only [List.forall_mem_cons]
      exact ⟨trivial, trivial, trivial, flag, fun arg member => absurd member List.not_mem_nil⟩
  | progress =>
      obtain rfl := Option.some.inj drawn
      have isWord : IsWord "draw_progress_bar".toList := by decide +kernel
      exact ⟨isWord, by simp [named_num]⟩
  | other => exact nomatch drawn

theorem named_uiDraw (c : Component) (call : Call) (drawn : uiDraw c = some call) :
    call.Named := by
  obtain ⟨type, x, y, w, h, text, color, fontSize, action, id, checked, value, max⟩ := c
  cases type with
  | label =>
      obtain rfl := Option.some.inj drawn
      have isWord : IsWord "draw_text".toList := by decide +kernel
      exact ⟨isWord, by simp [named_num, named_str]⟩
  | button =>
      obtain rfl := Option.some.inj drawn
      have isWord : IsWord "draw_button".toList := by decide +kernel
      exact ⟨isWord, by simp [named_num, named_str]⟩
  | listbox => exact nomatch drawn
  | radio => exact nomatch drawn
  | checkbox => exact nomatch drawn
  | progress => exact nomatch drawn
  | other => exact nomatch drawn

/-- The handler is read as its unit, and nothing in it looks like the end of a list. -/
theorem handler_reads :
    Safe installerHandler ∧
      run .start installerHandler = some (handlerUnit.flatMap Declaration.tokens, .start) ∧
      join (handlerUnit.flatMap Declaration.tokens) = handlerUnit.flatMap Declaration.tokens := by
  decide +kernel

def installerEmitter (data : InstallerDocument) : Emitter where
  front := "#include \"InstallerUI.h\"\n\n".toList
  directive := "include \"InstallerUI.h\"".toList
  header := installerHeader data
  headerUnit := data.header
  palette := data.palette
  head := "void render_installer_ui() \x7b\n".toList
  render := "render_installer_ui".toList
  component := installerComponent
  draw := installerDraw
  contents := installerStrings
  handler := installerHandler
  handlerUnit := handlerUnit
  reads_front := by decide +kernel
  writes_header := writes_installerHeader data
  head_eq := by decide +kernel
  isWord := by decide +kernel
  ne := by decide +kernel
  fresh := by
    simp [InstallerDocument.header, Declaration.tokens, word, paramTokens, installerInit,
      Call.statement, Statement.tokens, argTokens, word_not_mem_int]
  component_eq := installerComponent_eq
  named := named_installerDraw
  contents_eq := installerDraw_strings
  safe := handler_reads.1
  reads_handler := handler_reads.2.1
  joined := handler_reads.2.2
  only := rfl


def uiEmitter (data : UiDocument) : Emitter where
  front := "#include \"UI.h\"\n\n".toList
  directive := "include \"UI.h\"".toList
  header := uiHeader data
  headerUnit := data.header
  palette := data.palette
  head := "void render_ui() \x7b\n".toList
  render := "render_ui".toList
  component := uiComponent
  draw := uiDraw
  contents := uiStrings
  handler := []
  handlerUnit := []
  reads_front := by decide +kernel
  writes_header := writes_uiHeader data
  head_eq := by decide +kernel
  isWord := by decide +kernel
  ne := by decide +kernel
  fresh := by
    simp [UiDocument.header, Declaration.tokens, word, paramTokens, uiInit, Call.statement,
      Statement.tokens, argTokens, word_not_mem_int]
  component_eq := uiComponent_eq
  named := named_uiDraw
  contents_eq := uiDraw_strings
  safe := by decide
  reads_handler := rfl
  joined := rfl
  only := rfl

/-! ## Documents are preserved -/

section Documents

variable (data : InstallerDocument) (data' : UiDocument)

/-- The unit that a document for the installer means. -/
def InstallerDocument.unit : CUnit := (installerEmitter data).unit data.components

/-- The unit that a document for the desktop means. -/
def UiDocument.unit : CUnit := (uiEmitter data').unit data'.components

/-- The text is read as some unit that draws the components, each by its call and in order. -/
def InstallerDocument.Preserved : Prop :=
  ∃ unit, Parses (installerText data) unit ∧ bodies "render_installer_ui".toList unit =
    data.components.toList.map fun components =>
      (components.filterMap installerDraw).map Call.statement

def UiDocument.Preserved : Prop :=
  ∃ unit, Parses (uiText data') unit ∧ bodies "render_ui".toList unit =
    data'.components.toList.map fun components => (components.filterMap uiDraw).map Call.statement

def InstallerDocument.ComponentsClean : Prop :=
  ∀ c ∈ data.components.getD [], ∀ s ∈ installerStrings c, Clean s

def UiDocument.ComponentsClean : Prop :=
  ∀ c ∈ data'.components.getD [], ∀ s ∈ uiStrings c, Clean s

theorem isSome_installerDraw (c : Component) : (installerDraw c).isSome ↔ c.type ≠ .other := by
  obtain ⟨type, x, y, w, h, text, color, fontSize, action, id, checked, value, max⟩ := c
  cases type with
  | other => exact iff_of_false Bool.false_ne_true fun other => other rfl
  | _ => exact iff_of_true rfl ComponentType.noConfusion

theorem isSome_uiDraw (c : Component) :
    (uiDraw c).isSome ↔ c.type = .label ∨ c.type = .button := by
  obtain ⟨type, x, y, w, h, text, color, fontSize, action, id, checked, value, max⟩ := c
  cases type with
  | label => exact iff_of_true rfl (Or.inl rfl)
  | button => exact iff_of_true rfl (Or.inr rfl)
  | _ => exact iff_of_false Bool.false_ne_true (by simp)

theorem uiText_eq : uiText data' = (uiEmitter data').text data'.components :=
  (List.append_nil _).symm

/-- **Exactly the documents with clean strings are preserved.** The C text is the intended unit if
and only if all strings of the document are clean. With a clean palette, some unit that draws every
component can be read if and only if the strings of the components are clean. -/
theorem documents_preserved_iff_clean :
    ((∀ c, (installerDraw c).isSome ↔ c.type ≠ .other) ∧
      (Parses (installerText data) data.unit ↔
        (∀ s ∈ data.palette, Clean s) ∧ data.ComponentsClean) ∧
      ((∀ s ∈ data.palette, Clean s) → (data.Preserved ↔ data.ComponentsClean))) ∧
    ((∀ c, (uiDraw c).isSome ↔ c.type = .label ∨ c.type = .button) ∧
      (Parses (uiText data') data'.unit ↔
        (∀ s ∈ data'.palette, Clean s) ∧ data'.ComponentsClean) ∧
      ((∀ s ∈ data'.palette, Clean s) → (data'.Preserved ↔ data'.ComponentsClean))) := by
  refine ⟨⟨isSome_installerDraw, ?_, ?_⟩, isSome_uiDraw, ?_, ?_⟩
  · exact (installerEmitter data).parses_iff data.components
  · exact (installerEmitter data).preserves_iff data.components
  · rw [uiText_eq]
    exact (uiEmitter data').parses_iff data'.components
  · rw [UiDocument.Preserved, uiText_eq]
    exact (uiEmitter data').preserves_iff data'.components

end Documents

/-- An installer with one component. -/
def oneComponent (c : Component) : InstallerDocument where
  title := "CocosOS".toList
  background := "#101010".toList
  accent := "#3399ff".toList
  text := "#ffffff".toList
  button := "#202020".toList
  buttonHover := "#303030".toList
  panelWidth := 640
  panelHeight := 480
  components := some [c]

theorem clean_oneComponent (c : Component) : ∀ s ∈ (oneComponent c).palette, Clean s := by
  have clean : ∀ s ∈ ["CocosOS".toList, "#101010".toList, "#3399ff".toList, "#ffffff".toList,
      "#202020".toList, "#303030".toList], Clean s := by
    simp [Clean]
  exact clean

/-- An installer with a button is preserved. -/
theorem button_preserved :
    (oneComponent ⟨.button, some 10, some (-5), none, none, some "Next".toList, none, none,
      some "next".toList, none, none, none, none⟩).Preserved := by
  refine ((documents_preserved_iff_clean _ ⟨[], [], 0, [], [], 0, none⟩).1.2.2
    (clean_oneComponent _)).mpr ?_
  intro c member s written
  rw [List.mem_singleton.mp member] at written
  have clean : ∀ s ∈ ["Next".toList, "next".toList], Clean s := by
    simp [Clean]
  exact clean s written

/-- An installer with the label `Click "Next"` is not preserved. -/
theorem quoted_label_not_preserved :
    ¬ (oneComponent { type := .label, text := some "Click \"Next\"".toList }).Preserved := by
  intro preserved
  have clean := ((installerEmitter _).preserves_iff _ (clean_oneComponent _)).mp preserved _
    (List.mem_singleton_self _) "Click \"Next\"".toList List.mem_cons_self
  exact (clean '"' (by decide)).1 rfl

end CocosOS.Gui
