import Trellis.Text.Quoted

/-!
# UTF-8

Texts as bytes. `encode` writes one to four bytes for a character, the fewest that hold its value. `decode`
reads them back and refuses everything else, naming the bytes that it could not read: a sequence that is too
long for its value, a surrogate and a value above the last code point fail at their second byte.
-/

namespace Trellis

/-- The bytes of a file. -/
abbrev Bytes := List UInt8

namespace Utf8

def encodeChar (c : Char) : Bytes :=
  let n := c.toNat
  let tail (n : Nat) : UInt8 := (0x80 + n % 64).toUInt8
  if n < 0x80 then [n.toUInt8]
  else if n < 0x800 then [(0xc0 + n / 64).toUInt8, tail n]
  else if n < 0x10000 then [(0xe0 + n / 4096).toUInt8, tail (n / 64), tail n]
  else [(0xf0 + n / 262144).toUInt8, tail (n / 4096), tail (n / 64), tail n]

def encode (t : Text) : Bytes := t.flatMap encodeChar

/-- Why bytes cannot be read. -/
inductive Reason where
  | badStart
  | badContinuation
  | truncated
  deriving DecidableEq, Repr

def Reason.message : Reason → Text
  | .badStart => "invalid start byte"
  | .badContinuation => "invalid continuation byte"
  | .truncated => "unexpected end of data"

/-- The bytes that cannot be read: their position, how many there are, and the first of them. -/
structure Fault where
  position : Nat
  count : Nat
  byte : UInt8
  reason : Reason
  deriving DecidableEq, Repr

def Fault.message (f : Fault) : Text :=
  let place : Text :=
    if f.count = 1 then
      "byte 0x" ++ Text.hexDigits 2 f.byte.toNat ++ " in position " ++ Text.ofNat f.position
    else "bytes in position " ++ Text.ofNat f.position ++ "-" ++ Text.ofNat (f.position + f.count - 1)
  "'utf-8' codec can't decode " ++ place ++ ": " ++ f.reason.message

/-- What a first byte announces: the bits it carries, how many bytes follow, and the bounds of the next one. -/
structure Lead where
  value : Nat
  tail : Nat
  low : Nat := 0x80
  high : Nat := 0xbf

/-- The sequence that a byte starts. -/
def lead? (n : Nat) : Option Lead :=
  if n < 0x80 then some { value := n, tail := 0 }
  else if n < 0xc2 then none
  else if n < 0xe0 then some { value := n - 0xc0, tail := 1 }
  else if n < 0xf0 then
    some { value := n - 0xe0, tail := 2, low := if n = 0xe0 then 0xa0 else 0x80, high := if n = 0xed then 0x9f else 0xbf }
  else if n < 0xf5 then
    some { value := n - 0xf0, tail := 3, low := if n = 0xf0 then 0x90 else 0x80, high := if n = 0xf4 then 0x8f else 0xbf }
  else none

/-- Reads the bytes that follow a first byte. `taken` counts the bytes read so far; it comes back with the reason
when a byte is missing or out of bounds. -/
def readTail : (tail low high value taken : Nat) → Bytes → Except (Reason × Nat) (Nat × Bytes)
  | 0, _, _, value, _, bs => .ok (value, bs)
  | _ + 1, _, _, _, taken, [] => .error (.truncated, taken)
  | tail + 1, low, high, value, taken, b :: bs =>
    if low ≤ b.toNat && b.toNat ≤ high then
      readTail tail 0x80 0xbf (64 * value + (b.toNat - 0x80)) (taken + 1) bs
    else .error (.badContinuation, taken)

theorem readTail_length {tail low high value taken : Nat} {bs : Bytes} {r : Nat × Bytes}
    (h : readTail tail low high value taken bs = .ok r) : r.2.length ≤ bs.length := by
  induction tail generalizing low high value taken bs with
  | zero => simp only [readTail, Except.ok.injEq] at h; simp [← h]
  | succ tail ih =>
    cases bs with
    | nil => simp [readTail] at h
    | cons b bs =>
      simp only [readTail] at h
      split at h
      · exact Nat.le_succ_of_le (ih h)
      · simp at h

/-- Reads bytes that start at a position. -/
def decodeFrom (position : Nat) : Bytes → Except Fault Text
  | [] => .ok []
  | b :: bs =>
    match lead? b.toNat with
    | none => .error ⟨position, 1, b, .badStart⟩
    | some l =>
      match h : readTail l.tail l.low l.high l.value 1 bs with
      | .error (reason, count) => .error ⟨position, count, b, reason⟩
      | .ok (value, rest) =>
        have := readTail_length h
        (decodeFrom (position + 1 + l.tail) rest).map (Char.ofNat value :: ·)
termination_by bs => bs.length
decreasing_by simp only [List.length_cons]; simp only at this; omega

def decode (bs : Bytes) : Except Fault Text := decodeFrom 0 bs

/-- The character that stands for bytes that cannot be read. -/
def replacement : Char := Char.ofNat 0xfffd

/-- The text that bytes hold, where those that cannot be read are replaced, as many at a time as a fault names. -/
def decodeLossy : Bytes → Text
  | [] => []
  | b :: bs =>
    match lead? b.toNat with
    | none => replacement :: decodeLossy bs
    | some l =>
      match h : readTail l.tail l.low l.high l.value 1 bs with
      | .error (_, count) => replacement :: decodeLossy (bs.drop (count - 1))
      | .ok (value, rest) =>
        have := readTail_length h
        Char.ofNat value :: decodeLossy rest
termination_by bs => bs.length
decreasing_by
  · simp
  · simp only [List.length_drop, List.length_cons]; omega
  · simp only [List.length_cons]; simp only at this; omega

end Utf8

end Trellis
