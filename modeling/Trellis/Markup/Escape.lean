import Trellis.Text.Quoted
import Trellis.Text.Word

/-!
# Escaping

How a text is written inside markup, inside an attribute, inside a single-quoted string, inside a template
string and as an object key. Every function works character by character.
-/

namespace Trellis.Escape

/-- One character of markup text. -/
def textChar : Char → Text
  | '&' => "&amp;"
  | '<' => "&lt;"
  | '>' => "&gt;"
  | c => [c]

/-- One character of an attribute value. -/
def attributeChar : Char → Text
  | '"' => "&quot;"
  | '\'' => "&#x27;"
  | c => textChar c

def inText (t : Text) : Text := t.flatMap textChar

def inAttribute (t : Text) : Text := t.flatMap attributeChar

/-- An expression inside an attribute: double quotes become single ones. -/
def inExpression (t : Text) : Text := t.map fun c => if c = '"' then '\'' else c

/-- One character of a single-quoted string. -/
def stringChar : Char → Text
  | '\\' => "\\\\"
  | '\'' => "\\'"
  | '\n' => "\\n"
  | c => [c]

/-- A single-quoted string. -/
def quotedString (t : Text) : Text := '\'' :: t.flatMap stringChar ++ ['\'']

/-- The literal part of a template string: backslashes, backticks and openings of an interpolation are
escaped. -/
def inTemplate : Text → Text
  | [] => []
  | '\\' :: t => '\\' :: '\\' :: inTemplate t
  | '`' :: t => '\\' :: '`' :: inTemplate t
  | '$' :: '\x7b' :: t => '\\' :: '$' :: '\x7b' :: inTemplate t
  | c :: t => c :: inTemplate t

/-- An object key: bare when it is a name, else quoted. -/
def objectKey (t : Text) : Text := if Text.isNameLine t then t else Text.jsonQuoted t

/-- A reference to a component expression from a style rule. -/
def styleBinding (expr : Text) : Text :=
  if Text.isNameLine expr then "v-bind(" ++ expr ++ ")"
  else "v-bind('" ++ expr.map (fun c => if c = '\'' then '"' else c) ++ "')"

end Trellis.Escape
