import Trellis.Text.Utf8

/-!
# Names

The name of a file is a sequence of bytes, which need not be a text. It is read as one as far as it goes, and a byte
that belongs to no character stands for itself. Such a name finds its file, and it can be shown, with an escape in the
place of the byte. But a text that holds it has no bytes: `encode` refuses it where the first such byte stands.
-/

namespace Trellis

/-- A part of a name: a character, or the byte `0x80 + low`, which belongs to none. -/
inductive Glyph where
  | char (c : Char)
  | stray (low : Fin 128)
  deriving DecidableEq, Repr

/-- A name, or a text that names may stand in. -/
abbrev Name := List Glyph

namespace Glyph

def isChar : Glyph → Bool
  | .char _ => true
  | .stray _ => false

/-- The place in the order of names. A stray byte stands among the surrogates, which are no characters. -/
def code : Glyph → Nat
  | .char c => c.toNat
  | .stray low => 0xdc80 + low.val

def bytes : Glyph → Bytes
  | .char c => Utf8.encodeChar c
  | .stray low => [(0x80 + low.val).toUInt8]

/-- A stray byte is written as the surrogate in its place. -/
def escape (low : Fin 128) : Text := "\\u" ++ Text.hexDigits 4 (0xdc80 + low.val)

def shown : Glyph → Text
  | .char c => [c]
  | .stray low => escape low

end Glyph

namespace Name

def ofText (t : Text) : Name := t.map .char

instance : Coe Text Name := ⟨ofText⟩

/-- The text that the name is, if it is one. -/
def text? : Name → Option Text
  | [] => some []
  | .char c :: n => (text? n).map (c :: ·)
  | .stray _ :: _ => none

def isText (n : Name) : Bool := n.all Glyph.isChar

/-- The name as messages show it. -/
def shown (n : Name) : Text := n.flatMap Glyph.shown

/-- The form shown in listings. -/
def quoted (n : Name) : Text :=
  let q := if n.contains (.char '\'') && !n.contains (.char '"') then '"' else '\''
  q :: n.flatMap (fun
    | .char c => Text.quotedChar q c
    | .stray low => Glyph.escape low) ++ [q]

def join (sep : Name) (parts : List Name) : Name := List.intercalate sep parts

def bytes (n : Name) : Bytes := n.flatMap Glyph.bytes

def le (s t : Name) : Bool := Text.leBy Glyph.code s t

/-- The stray bytes that keep a text from having bytes: where they start, how many there are, and the first of them. -/
structure Fault where
  position : Nat
  count : Nat
  low : Fin 128
  deriving DecidableEq, Repr

def Fault.message (f : Fault) : Text :=
  let place : Text :=
    if f.count = 1 then "character '" ++ Glyph.escape f.low ++ "' in position " ++ Text.ofNat f.position
    else "characters in position " ++ Text.ofNat f.position ++ "-" ++ Text.ofNat (f.position + f.count - 1)
  "'utf-8' codec can't encode " ++ place ++ ": surrogates not allowed"

/-- The bytes of a text that starts at a position. -/
def encodeFrom (position : Nat) : Name → Except Fault Bytes
  | [] => .ok []
  | .char c :: n => (encodeFrom (position + 1) n).map (Utf8.encodeChar c ++ ·)
  | .stray low :: n => .error ⟨position, (n.takeWhile fun g => !g.isChar).length + 1, low⟩

def encode (n : Name) : Except Fault Bytes := encodeFrom 0 n

end Name

end Trellis
