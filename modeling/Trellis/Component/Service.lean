import Trellis.Code.Line
import Trellis.Document.Basic

/-!
# Service clients

A service becomes an object with one asynchronous method per endpoint. The path parameters of an endpoint are
interpolated into its URL; named parameters travel in the body or in the query, depending on the verb.
-/

namespace Trellis.Component

/-- The pieces of a path: the text before the first parameter, then each parameter with the text behind it. -/
structure PathPieces where
  text : Text
  params : List (Text × Text)
  deriving DecidableEq, Repr

/-- Cuts a path at its parameters: colons followed by a word. -/
def pathPieces (t : Text) : PathPieces :=
  match t with
  | [] => ⟨[], []⟩
  | c :: r =>
    if c = ':' && !(r.takeWhile Text.isWord).isEmpty then
      let rest := pathPieces (r.dropWhile Text.isWord)
      ⟨[], (r.takeWhile Text.isWord, rest.text) :: rest.params⟩
    else
      let rest := pathPieces r
      ⟨c :: rest.text, rest.params⟩
termination_by t.length
decreasing_by
  · have := (List.dropWhile_sublist (l := r) Text.isWord).length_le
    simp only [List.length_cons]; omega
  · simp

/-- A parameter of a path as an interpolation, with the text behind it. -/
def interpolate (piece : Text × Text) : Text := "$\x7b" ++ piece.1 ++ "\x7d" ++ Escape.inTemplate piece.2

/-- The template string of an endpoint, without its backticks. -/
def urlTemplate (baseUrl path : Text) : Text :=
  let base := if path.head? = some '/' then Text.trimEndOf '/' baseUrl else baseUrl
  let pieces := pathPieces path
  Escape.inTemplate base ++ Escape.inTemplate pieces.text ++ pieces.params.flatMap interpolate

/-- The template string of an endpoint. -/
def serviceUrl (baseUrl path : Text) : Text := "`" ++ urlTemplate baseUrl path ++ "`"

/-- The names without repetitions, each at its first place. -/
def distinct : List Text → List Text
  | [] => []
  | n :: ns => n :: (distinct ns).filter (· ≠ n)

/-- The parameters of a client method: those of the endpoint, and `data` when a body has no named ones. -/
def methodParams (m : ServiceMethod) : List Text :=
  let params := distinct m.parameters
  if m.verb.sendsBody && m.smartParams.isEmpty then params ++ [("data" : Text)] else params

def fetchOptions (m : ServiceMethod) : List Text :=
  let payload : Text :=
    if m.smartParams.isEmpty then "data" else "\x7b " ++ Text.join ", " m.smartParams ++ " \x7d"
  let method : List Text := if m.verb = .get then [] else ["method: '" ++ m.verb.upper ++ "'"]
  let body : List Text :=
    if m.verb.sendsBody then
      ["headers: \x7b 'Content-Type': 'application/json' \x7d", "body: JSON.stringify(" ++ payload ++ ")"]
    else []
  method ++ body

/-- The named parameters travel in the query. -/
def hasQuery (m : ServiceMethod) : Bool := !m.verb.sendsBody && !m.smartParams.isEmpty

def fetchLine (baseUrl : Text) (m : ServiceMethod) : Text :=
  let query : Text := if hasQuery m then "?$\x7bquery\x7d" else []
  let url := "`" ++ urlTemplate baseUrl m.path ++ query ++ "`"
  let options := fetchOptions m
  let extra : Text := if options.isEmpty then [] else ", \x7b " ++ Text.join ", " options ++ " \x7d"
  "const res = await fetch(" ++ url ++ extra ++ ")"

/-- The lines of a client method, inside its object. -/
def methodLines (baseUrl : Text) (m : ServiceMethod) : List CodeLine :=
  let query : List CodeLine :=
    if hasQuery m then
      [⟨2, "const query = new URLSearchParams(\x7b " ++ Text.join ", " m.smartParams ++ " \x7d)"⟩]
    else []
  ⟨1, "async " ++ m.name ++ "(" ++ Text.join ", " (methodParams m) ++ ") \x7b"⟩ :: query ++
    [⟨2, fetchLine baseUrl m⟩, ⟨2, "return res.json()"⟩, ⟨1, "\x7d,"⟩]

def serviceLines (s : ServiceDecl) : List CodeLine :=
  ⟨0, "const " ++ s.name ++ " = \x7b"⟩ :: s.methods.flatMap (methodLines s.baseUrl) ++ [⟨0, "\x7d"⟩]

end Trellis.Component
