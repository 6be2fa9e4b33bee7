import Trellis.Text.Case

/-!
# Request verbs
-/

namespace Trellis

/-- The verbs of routes and service methods. -/
inductive Verb where
  | get
  | post
  | put
  | patch
  | delete
  deriving DecidableEq, Repr

namespace Verb

/-- The verbs in the order they are listed to users. -/
def all : List Verb := [.get, .post, .put, .patch, .delete]

def name : Verb → Text
  | .get => "get"
  | .post => "post"
  | .put => "put"
  | .patch => "patch"
  | .delete => "delete"

def upper (v : Verb) : Text := Text.upperAscii v.name

/-- The verb written exactly as `t`. -/
def ofName? (t : Text) : Option Verb := all.find? (·.name = t)

/-- The verb travels with a body, so its named parameters go there. -/
def sendsBody : Verb → Bool
  | .post | .put | .patch => true
  | .get | .delete => false

end Verb

end Trellis
