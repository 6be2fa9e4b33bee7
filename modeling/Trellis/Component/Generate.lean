import Trellis.Code.Function
import Trellis.Component.Service
import Trellis.Component.Template
import Trellis.Path

/-!
# Components

A document without a server becomes a component in three sections: the script (state, service clients, aliases,
functions and the mount hook), the template, and the scoped styles.
-/

namespace Trellis.Component

/-- The lines of a function. It is asynchronous when an await was inserted into it. -/
def functionLines (states : List Text) (f : FunctionDecl) : List CodeLine :=
  let (body, scope) := Code.emitAll states 1 { declared := f.parameters } f.statements
  let intro : Text := if scope.awaited then "async function " else "function "
  ⟨0, intro ++ f.name ++ "(" ++ Text.join ", " f.parameters ++ ") \x7b"⟩ :: body ++ [⟨0, "\x7d"⟩]

def mountLines (states : List Text) (m : MountHook) : List CodeLine :=
  if m.statements.isEmpty then [⟨0, "onMounted(() => \x7b\x7d)"⟩]
  else ⟨0, "onMounted(async () => \x7b"⟩ :: (Code.emitAll states 1 {} m.statements).1 ++ [⟨0, "\x7d)"⟩]

def stateLine (s : StateDecl) : CodeLine := ⟨0, "const " ++ s.name ++ " = ref(" ++ s.value ++ ")"⟩

def aliasLine (a : Alias) : CodeLine := ⟨0, "const " ++ a.name ++ " = " ++ a.source⟩

def imports (s : Script) : List Text :=
  let state : List Text := if s.state.isEmpty then [] else ["ref"]
  let mount : List Text := if s.mount.isSome then ["onMounted"] else []
  state ++ mount

/-- A list of lines, unless it is empty. -/
def blockOf (ls : List CodeLine) : List (List CodeLine) := if ls.isEmpty then [] else [ls]

/-- The names of the state variables, in the order of their declarations. -/
def stateNames (s : Script) : List Text := s.state.map (·.name)

/-- The blocks of the script in order. The set of the state names may be listed in any order. -/
def blocks (s : Script) (states : List Text := stateNames s) : List (List CodeLine) :=
  blockOf (s.state.map stateLine) ++ s.services.map serviceLines ++ blockOf (s.aliases.map aliasLine)
    ++ s.functions.map (functionLines states) ++ s.mount.toList.map (mountLines states)

def emptyLine : CodeLine := ⟨0, []⟩

/-- The lines of the script section: blocks are separated by empty lines. -/
def scriptLines (s : Script) (states : List Text := stateNames s) : List CodeLine :=
  let importLine : List CodeLine :=
    if (imports s).isEmpty then []
    else [⟨0, "import \x7b " ++ Text.join ", " (imports s) ++ " \x7d from 'vue'"⟩]
  let body := [emptyLine].intercalate (blockOf importLine ++ blocks s states)
  ⟨0, "<script setup>"⟩ :: body ++ [⟨0, "</script>"⟩]

def templateSection (markup : List Markup) : Text :=
  "<template>\n" ++ (Markup.renderAll 1 markup).flatMap (· ++ ['\n']) ++ "</template>"

def styleSection (rules : List StyleRule) : Text :=
  if rules.isEmpty then "<style scoped>\n</style>"
  else "<style scoped>\n" ++ Text.join "\n\n" (rules.map StyleRule.render) ++ "\n</style>"

/-- The name of a source file for the header of its output; a missing or empty path gives none. -/
def headerName? (path : Option Text) : Option Text :=
  match path with
  | none | some [] => none
  | some p => some (Path.ofName p).name.shown

/-- What the header of a component says before the name. -/
def headerLead : Text := "<!-- Generated by Yggdra from "

def header (name : Text) : Text := headerLead ++ name ++ " -->"

def generate (path : Option Text) (indentSize : Nat) (d : Document) (states : List Text := stateNames d.script) : Text :=
  let (markup, sheet) := buildAll none {} d.children
  Text.join "\n\n"
    ((headerName? path).toList.map header ++
      [CodeLine.renderAll indentSize (scriptLines d.script states), templateSection markup,
        styleSection sheet.rules]) ++ "\n"

end Trellis.Component
