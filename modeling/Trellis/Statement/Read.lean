import Trellis.Literal.Block
import Trellis.Statement.Basic
import Trellis.Statement.Forest
import Trellis.Text.Word

/-!
# Reading bodies

A function body is nested by indentation and read line by line: `if expr` without parentheses is a condition,
`name = expr` an assignment, `else` joins the condition just before it, and any other line is kept as it is. In
a route body only `return` is special: with an expression it answers with it, and without one every remaining
line of the body is a literal block.

A line feed inside a line (a line handed in from outside may hold one) ends what a pattern can take, so such a
line is kept as it is.
-/

namespace Trellis.Statement

/-- The condition of an `if` line. One blank before an opening parenthesis makes it a plain line; an opening
brace at the end does too. -/
def ifCondition? (t : Text) : Option Text := do
  let r ← Text.after? "if" t
  let blanks := r.takeWhile Text.isBlank
  let expr := r.dropWhile Text.isBlank
  let lastBlank ← blanks.getLast?
  if expr.isEmpty || expr.contains '\n' || t.getLast? = some '\x7b' then none
  else if expr.head? = some '(' && (blanks.length < 2 || lastBlank = '\n') then none
  else some expr

/-- The name and the value of an assignment line. -/
def assignment? (t : Text) : Option (Text × Text) := do
  let (name, r) ← Text.takeName? t
  match Text.trimStart r with
  | '=' :: '=' :: _ => none
  | '=' :: v =>
    let value := Text.trim v
    if value.isEmpty || value.contains '\n' then none else some (name, value)
  | _ => none

/-- What a `return` line answers with: the text after it, without one equals sign before and semicolons
behind. -/
def returnValue? (t : Text) : Option Text := do
  let r ← Text.after? "return" t
  if (r.head?.map Text.isWord).getD false || r.contains '\n' then none
  else
    let value := match Text.trim r with
      | '=' :: '=' :: v => '=' :: '=' :: v
      | '=' :: v => Text.trim v
      | v => v
    some (Text.trim (Text.trimEndOf ';' value))

/-- A `return` line of a route body. -/
def isReturn (l : BodyLine) : Bool := !l.isComment && (returnValue? l.code).isSome

/-- A `return` line that answers with a literal block. -/
def isBareReturn (l : BodyLine) : Bool := !l.isComment && returnValue? l.code = some []

def locate (filename : Option Text) (l : BodyLine) : Location := ⟨l.line, l.indent + 1, filename⟩

def ofComment (filename : Option Text) (l : BodyLine) : Statement :=
  .comment (Text.trim (l.text.drop 1)) (locate filename l)

/-- The statement of a function line with its body. -/
def ofLine (filename : Option Text) (l : BodyLine) (body : List Statement) : Statement :=
  match ifCondition? l.code with
  | some c => .cond c body [] (locate filename l)
  | none =>
    match assignment? l.code with
    | some (target, value) => .assign target value body (locate filename l)
    | none => .raw l.code body (locate filename l)

/-- The statement of a route line with its body; `block` is the literal of a bare return. -/
def ofRouteLine (filename : Option Text) (block : Literal) (l : BodyLine) (body : List Statement) : Statement :=
  match returnValue? l.code with
  | some [] => .respondBlock block (locate filename l)
  | some value => .respond value (locate filename l)
  | none => .raw l.code body (locate filename l)

/-- An `else` line joins the condition before it, as long as that has no `else` part. -/
def joinElse? (previous : Option Statement) (l : BodyLine) (body : List Statement) : Option Statement :=
  if l.code = "else" then
    match previous with
    | some (.cond c b [] loc) => some (.cond c b body loc)
    | _ => none
  else none

mutual

def readBelow (filename : Option Text) : LineTree → List Statement
  | .node _ below => readForest filename none below

/-- The statements of a forest of function lines; `previous` is the statement just before them, which an
`else` may still join. -/
def readForest (filename : Option Text) (previous : Option Statement) : List LineTree → List Statement
  | [] => previous.toList
  | t :: ts =>
    let .node l _ := t
    if l.isComment then previous.toList ++ readForest filename (some (ofComment filename l)) ts
    else
      let body := readBelow filename t
      match joinElse? previous l body with
      | some joined => readForest filename (some joined) ts
      | none => previous.toList ++ readForest filename (some (ofLine filename l body)) ts

end

mutual

def readRouteTree (filename : Option Text) (block : Literal) : LineTree → Statement
  | .node l below =>
    if l.isComment then ofComment filename l
    else ofRouteLine filename block l (readRouteForest filename block below)

def readRouteForest (filename : Option Text) (block : Literal) : List LineTree → List Statement
  | [] => []
  | t :: ts => readRouteTree filename block t :: readRouteForest filename block ts

end

/-- The lines up to the first one that is indented less than zero; a body read from a source has none. -/
def reachable (lines : List BodyLine) : List BodyLine := lines.takeWhile fun l => -1 < l.indent

/-- Reads a function or mount body. -/
def readBody (filename : Option Text) (lines : List BodyLine) : List Statement :=
  readForest filename none (LineTree.nest BodyLine.isComment (reachable lines))

/-- The lines up to and with the first bare return, and the lines of its literal block. -/
def cutAtReturn : List BodyLine → List BodyLine × List BodyLine
  | [] => ([], [])
  | l :: ls =>
    if l.indent ≤ -1 then ([], [])
    else if isBareReturn l then ([l], ls)
    else (l :: (cutAtReturn ls).1, (cutAtReturn ls).2)

/-- Reads a route body, with the lines its literal block leaves out. -/
def readRouteBody (filename : Option Text) (lines : List BodyLine) :
    List Statement × List Literal.BlockReport :=
  let (code, blockLines) := cutAtReturn lines
  let (block, reports) := Literal.readBlock blockLines
  (readRouteForest filename block.tree (LineTree.nest (fun l => l.isComment || isReturn l) code), reports)

end Trellis.Statement
