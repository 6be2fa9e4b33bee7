import Trellis.Diagnostic.Basic
import Trellis.Literal.Block
import Trellis.Verb

/-!
# Problems

Everything a source can be told about, with its code, level, wording and help. Codes `E0201` to `E0203` are lines
left out, `E0204` a line left out of a literal block, the others warnings about lines that are kept or ignored.
-/

namespace Trellis

inductive Problem where
  | unrecognised (suggestion : Option Text)
  | malformedState
  | malformedFunction
  | malformedService
  | malformedUse
  | malformedMount
  | malformedServer
  | malformedRoute (verb : Verb)
  | malformedElement
  | malformedLoop
  | malformedProperty
  | missingSelector
  | missingTag
  | notForServer
  | routeOutsideServer
  | onlyStyles
  | pseudoOutsideElement
  | elseWithoutIf
  | notForLoop
  | propertyOutsideElement
  | block (fault : Literal.BlockFault)
  | duplicateMount
  | duplicateServer
  | unsupportedServiceLine
  deriving DecidableEq, Repr

namespace Problem

def code : Problem → Text
  | .unrecognised _ => "E0201"
  | .malformedState | .malformedFunction | .malformedService | .malformedUse | .malformedMount
  | .malformedServer | .malformedRoute _ | .malformedElement | .malformedLoop | .malformedProperty
  | .missingSelector | .missingTag => "E0202"
  | .notForServer | .routeOutsideServer | .onlyStyles | .pseudoOutsideElement | .elseWithoutIf
  | .notForLoop | .propertyOutsideElement => "E0203"
  | .block _ => "E0204"
  | .duplicateMount | .duplicateServer => "W0201"
  | .unsupportedServiceLine => "W0202"

def level : Problem → Level
  | .duplicateMount | .duplicateServer | .unsupportedServiceLine => .warning
  | _ => .error

def message : Problem → Text
  | .unrecognised _ => "unrecognised line"
  | .malformedState => "malformed state declaration"
  | .malformedFunction => "malformed function declaration"
  | .malformedService => "malformed service declaration"
  | .malformedUse => "malformed use declaration"
  | .malformedMount => "malformed onMount block"
  | .malformedServer => "malformed server declaration"
  | .malformedRoute _ => "malformed route declaration"
  | .malformedElement => "malformed element line"
  | .malformedLoop => "malformed loop"
  | .malformedProperty => "malformed property"
  | .missingSelector => "missing pseudo-class selector"
  | .missingTag => "'.tag' needs a tag name"
  | .notForServer => "only state and route lines are allowed inside a server block"
  | .routeOutsideServer => "route outside a server block"
  | .onlyStyles => "pseudo-class blocks only hold style properties"
  | .pseudoOutsideElement => "pseudo-class outside an element"
  | .elseWithoutIf => "'else' without a matching 'if'"
  | .notForLoop => "loops only accept a '.key: expr' property"
  | .propertyOutsideElement => "property outside an element"
  | .block fault => fault.message
  | .duplicateMount => "duplicate onMount block"
  | .duplicateServer => "duplicate server block"
  | .unsupportedServiceLine => "unsupported service line ignored"

/-- How to mend a problem, where there is something to say. -/
def help? : Problem → Option Text
  | .unrecognised s => s.map fun w => "did you mean '" ++ w ++ "'?"
  | .malformedState => some "expected 'state [type] name = value'"
  | .malformedFunction => some "expected 'fn name(param, ...)'"
  | .malformedService => some "expected 'service Name: \"https://base.url\"'"
  | .malformedUse => some "expected 'use Source as alias'"
  | .malformedMount => some "'onMount' takes no arguments"
  | .malformedServer => some "expected 'server Name: port'"
  | .malformedRoute verb => some ("expected '" ++ verb.name ++ " name /path [?param ...]'")
  | .malformedElement => some "an element line holds a single name such as 'VBox'"
  | .malformedLoop => some "expected 'loop item in items' or 'loop item, index in items'"
  | .malformedProperty => some "expected '.key: value' or '.key'"
  | .missingSelector => some "e.g. '&hover'"
  | .missingTag => some "e.g. '.tag: section'"
  | .routeOutsideServer => some "routes must be indented under 'server Name: port'"
  | .duplicateMount => some "this block replaces the earlier one"
  | .duplicateServer => some "only the first server block of a file is compiled"
  | .unsupportedServiceLine =>
    some ("expected '<" ++ Text.join "|" (Verb.all.map Verb.name) ++ "> name /path [?param ...]'")
  | _ => none

/-- The problem as a diagnostic of a line. -/
def diagnose (p : Problem) (filename : Option Text) (line : Int) (raw : Text) : Diagnostic :=
  { code := p.code, level := p.level, message := p.message, text := Text.trim raw,
    spans := [Span.ofLine line raw filename], helps := p.help?.toList }

end Problem

end Trellis
