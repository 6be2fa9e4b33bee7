import Trellis.Text.Digit
import Trellis.Text.Word

/-!
# URL authorities

The authority of a URL is what stands between `//` and the next `/`, `?` or `#`. Its port follows the colon
behind the host; a host in brackets is an IPv6 address, or starts with `v` and a hexadecimal number.
-/

namespace Trellis.Authority

/-- The URL is not well formed. -/
inductive Fault where
  | malformed
  deriving DecidableEq, Repr

/-- A character of a scheme. -/
def isSchemeChar (c : Char) : Bool :=
  Text.isAsciiLetter c || Text.isAsciiDigit c || c = '+' || c = '-' || c = '.'

/-- The URL without leading controls and spaces, and without tabs and line ends. -/
def clean (url : Text) : Text :=
  (url.dropWhile fun c => c.toNat ≤ 0x20).filter fun c => c ≠ '\t' && c ≠ '\r' && c ≠ '\n'

/-- What follows the scheme, or the whole URL when it has none. -/
def afterScheme (url : Text) : Text :=
  match Text.cut? ':' url with
  | some (c :: scheme, rest) =>
    if Text.isAsciiLetter c && scheme.all isSchemeChar then rest else url
  | _ => url

/-- The authority; empty when there is none. -/
def ofUrl (url : Text) : Text :=
  match afterScheme (clean url) with
  | '/' :: '/' :: r => r.takeWhile fun c => c ≠ '/' && c ≠ '?' && c ≠ '#'
  | _ => []

/-- What follows the last `@`. -/
def hostInfo (authority : Text) : Text :=
  match Text.cutLast? '@' authority with
  | some (_, r) => r
  | none => authority

/-- The parts before and after the first `sep`; all of it and nothing when it does not occur. -/
def partition (sep : Char) (t : Text) : Text × Text := (Text.cut? sep t).getD (t, [])

def isHex (c : Char) : Bool :=
  let n := c.toNat
  Text.isAsciiDigit c || (0x41 ≤ n && n ≤ 0x46) || (0x61 ≤ n && n ≤ 0x66)

/-- A group of an IPv6 address. -/
def isGroup (t : Text) : Bool := !t.isEmpty && t.length ≤ 4 && t.all isHex

/-- A number of an IPv4 address: at most 255, without leading zeros. -/
def isOctet (t : Text) : Bool :=
  !t.isEmpty && t.length ≤ 3 && t.all Text.isAsciiDigit && (t = ['0'] || t.head? ≠ some '0')
    && (Text.decimalValue? t).getD 0 ≤ 255

def isV4 (t : Text) : Bool :=
  let octets := Text.splitAt '.' t
  octets.length = 4 && octets.all isOctet

/-- The groups of an IPv6 address, where an IPv4 address at the end counts as two. -/
def groups? (t : Text) : Option (List Text) :=
  let parts := Text.splitAt ':' t
  if parts.length < 3 then none
  else
    let last := parts.getLastD []
    if last.contains '.' then if isV4 last then some (parts.dropLast ++ [['0'], ['0']]) else none
    else some parts

/-- The groups form an IPv6 address: eight, or fewer with one gap. -/
def areGroups (parts : List Text) : Bool :=
  let inner := (parts.drop 1).dropLast
  let gaps := inner.filter (·.isEmpty)
  let head := parts.headD []
  let last := parts.getLastD []
  if parts.length > 9 || gaps.length > 1 then false
  else if gaps.isEmpty then parts.length = 8 && parts.all isGroup
  else
    let skip := 1 + (inner.takeWhile (!·.isEmpty)).length
    let high := if head.isEmpty then skip - 1 else skip
    let low := if last.isEmpty then parts.length - skip - 2 else parts.length - skip - 1
    !(head.isEmpty && high ≠ 0) && !(last.isEmpty && low ≠ 0) && high + low < 8
      && (parts.take high).all isGroup && (parts.drop (parts.length - low)).all isGroup

/-- An IPv6 address, possibly with a zone. -/
def isV6 (t : Text) : Bool :=
  let address := match Text.cut? '%' t with
    | none => some t
    | some (a, zone) => if zone.isEmpty || zone.contains '%' then none else some a
  match address.bind groups? with
  | some parts => areGroups parts
  | none => false

/-- A host that may stand in brackets. -/
def isBracketed (host : Text) : Bool :=
  match host with
  | 'v' :: r =>
    match Text.cut? '.' r with
    | some (version, rest) => !version.isEmpty && version.all isHex && !rest.isEmpty && !rest.contains '\n'
    | none => false
  | _ => !isV4 host && isV6 host

/-- The brackets of an authority are well placed. -/
def bracketsFit (authority : Text) : Bool :=
  if authority.contains '[' != authority.contains ']' then false
  else if !authority.contains '[' then true
  else
    let info := hostInfo authority
    match Text.cut? '[' info with
    | some (before, inside) =>
      let (host, port) := partition ']' inside
      before.isEmpty && (port.isEmpty || port.head? = some ':') && isBracketed host
    | none => isBracketed (partition ':' info).1

/-- Characters that stand for several plain ones, among them one that would end the authority. -/
def lookalikes : List Nat :=
  [0x2047, 0x2048, 0x2049, 0x2100, 0x2101, 0x2105, 0x2106, 0x2a74, 0xfe13, 0xfe16, 0xfe55, 0xfe56, 0xfe5f,
    0xfe6b, 0xff03, 0xff0f, 0xff1a, 0xff1f, 0xff20]

/-- The port text behind the host; empty when there is none. -/
def portText (authority : Text) : Text :=
  let info := hostInfo authority
  match Text.cut? '[' info with
  | some (_, inside) => (partition ':' (partition ']' inside).2).2
  | none => (partition ':' info).2

/-- The port a URL gives, if any. -/
def port (url : Text) : Except Fault (Option Nat) :=
  let authority := ofUrl url
  if !bracketsFit authority || authority.any fun c => lookalikes.contains c.toNat then .error .malformed
  else
    let text := portText authority
    if text.isEmpty then .ok none
    else if text.all Text.isAsciiDigit && text.length ≤ Text.maxDigits then
      let value := (Text.decimalValue? text).getD 0
      if value ≤ 65535 then .ok (some value) else .error .malformed
    else .error .malformed

end Trellis.Authority
