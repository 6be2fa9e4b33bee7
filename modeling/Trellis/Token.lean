import Trellis.Line
import Trellis.Text.Lines
import Trellis.Text.Quoted
import Trellis.Text.Word
import Trellis.Verb

/-!
# Line tokens

Every non-blank line is one token: its indentation, its kind by the word or sign it starts with, and the
text after that leader. The kind is decided on the line alone; whether the line may stand where it does is
not looked at here.
-/

namespace Trellis

/-- What a line is, by its leader. -/
inductive LineKind where
  | comment
  | state
  | fn
  | server
  | route (verb : Verb)
  | property
  | pseudo
  | cond
  | otherwise
  | loop
  | service
  | use
  | onMount
  | element
  | unknown
  deriving DecidableEq, Repr

namespace LineKind

/-- The name shown in token listings. -/
def label : LineKind → Text
  | .comment => "COMMENT"
  | .state => "STATE"
  | .fn => "FN"
  | .server => "SERVER"
  | .route _ => "ROUTE"
  | .property => "PROPERTY"
  | .pseudo => "PSEUDO"
  | .cond => "IF"
  | .otherwise => "ELSE"
  | .loop => "LOOP"
  | .service => "SERVICE"
  | .use => "USE"
  | .onMount => "ON_MOUNT"
  | .element => "ELEMENT"
  | .unknown => "UNKNOWN"

/-- The leader a line of this kind starts with; empty for elements and unknown lines. -/
def leader : LineKind → Text
  | .comment => "#"
  | .state => "state"
  | .fn => "fn"
  | .server => "server"
  | .route v => v.name
  | .property => "."
  | .pseudo => "&"
  | .cond => "if"
  | .otherwise => "else"
  | .loop => "loop"
  | .service => "service"
  | .use => "use"
  | .onMount => "onMount"
  | .element | .unknown => []

/-- The kinds whose leader is a word followed by a blank and an argument. -/
def worded : List LineKind := [.state, .fn, .server, .cond, .loop, .service, .use] ++ Verb.all.map .route

/-- Every word a line may start with, in the order they are suggested. -/
def leaders : List Text := worded.map leader ++ [otherwise.leader, onMount.leader]

end LineKind

/-- One classified line. -/
structure LineToken where
  line : Nat
  indent : Nat
  kind : LineKind
  text : Text
  raw : Text
  deriving DecidableEq, Repr

namespace LineToken

/-- The word at the start of a text, when a blank follows it, and the text after those blanks. -/
def leadingWord? (t : Text) : Option (Text × Text) :=
  match t.takeWhile Text.isWord, t.dropWhile Text.isWord with
  | w@(_ :: _), c :: r => if Text.isBlank c then some (w, Text.trim (c :: r)) else none
  | _, _ => none

/-- The kind and argument of a line that starts with a leader word. -/
def wordedKind? (content : Text) : Option (LineKind × Text) := do
  let (w, rest) ← leadingWord? content
  let kind ← LineKind.worded.find? (·.leader = w)
  return (kind, rest)

/-- The kind and text of a line that is not a comment, from its content without comment. -/
def kindOf (content : Text) : LineKind × Text :=
  match wordedKind? content with
  | some r => r
  | none =>
    match content with
    | '.' :: t => (.property, t)
    | '&' :: t => (.pseudo, Text.trim t)
    | _ =>
      if content = "else" then (.otherwise, [])
      else match Text.after? "onMount" content with
        | some t => (.onMount, Text.trim t)
        | none =>
          if (content.head?.map Text.isAsciiUpper).getD false then (.element, content)
          else (.unknown, content)

/-- Classifies a physical line. -/
def classify (line : Nat) (raw : Text) : LineToken :=
  match Text.trim raw with
  | '#' :: t => ⟨line, indentOf raw, .comment, Text.trim t, raw⟩
  | t =>
    let (kind, text) := kindOf (stripComment t)
    ⟨line, indentOf raw, kind, text, raw⟩

/-- The lines of `ls` that are not blank, classified and numbered from `n`. -/
def ofLines (n : Nat) : List Text → List LineToken
  | [] => []
  | l :: ls =>
    if Text.isBlankText l then ofLines (n + 1) ls else classify n l :: ofLines (n + 1) ls

def tokenize (source : Text) : List LineToken := ofLines 1 (Text.lines source)

/-- The whole trimmed line without comment, leader included. -/
def content (t : LineToken) : Text :=
  match t.kind with
  | .property | .pseudo => t.kind.leader ++ t.text
  | .element | .unknown | .otherwise => if t.text.isEmpty then t.kind.leader else t.text
  | k => Text.trim (k.leader ++ " " ++ t.text)

/-- The token as a line of a listing. -/
def listing (t : LineToken) : Text :=
  "LineToken(" ++ Text.ofNat t.line ++ ", indent=" ++ Text.ofNat t.indent ++ ", " ++ t.kind.label ++ ", "
    ++ Text.quoted t.text ++ ")"

/-- The token as a captured line. -/
def toBodyLine (t : LineToken) : BodyLine := ⟨t.line, t.indent, t.raw⟩

end LineToken

end Trellis
