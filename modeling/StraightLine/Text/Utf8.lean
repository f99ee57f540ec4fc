/-!
Reading UTF-8. Each byte either starts a character, continues one, or is a fault that names the
bytes at fault and why. Line breaks of every kind then become line feeds.
-/

namespace StraightLine.Text

inductive Utf8Reason where
  | badStart
  | badContinuation
  | truncated
  deriving DecidableEq, Repr

def Utf8Reason.message : Utf8Reason → String
  | .badStart => "invalid start byte"
  | .badContinuation => "invalid continuation byte"
  | .truncated => "unexpected end of data"

/-- Bytes that no text is written as: those from offset `start`, of which `first` is the first, up to
offset `stop`, which is left out. -/
structure Utf8Fault where
  start : Nat
  stop : Nat
  first : UInt8
  reason : Utf8Reason
  deriving DecidableEq, Repr

/-- A character that has begun and still lacks `missing` bytes, the next of them between `low` and
`high`; `code` holds the bits read so far. -/
structure Unfinished where
  start : Nat
  first : UInt8
  missing : Nat
  low : Nat
  high : Nat
  code : Nat
  deriving DecidableEq, Repr

/-- What a byte above the one-byte characters starts. The bounds on the second byte leave out
needlessly long forms, surrogates, and code points past the last. -/
def beginning (start : Nat) (first : UInt8) : Option Unfinished :=
  let b := first.toNat
  if 0xC2 ≤ b ∧ b ≤ 0xDF then some ⟨start, first, 1, 0x80, 0xBF, b - 0xC0⟩
  else if b = 0xE0 then some ⟨start, first, 2, 0xA0, 0xBF, 0⟩
  else if b = 0xED then some ⟨start, first, 2, 0x80, 0x9F, 0x0D⟩
  else if 0xE1 ≤ b ∧ b ≤ 0xEF then some ⟨start, first, 2, 0x80, 0xBF, b - 0xE0⟩
  else if b = 0xF0 then some ⟨start, first, 3, 0x90, 0xBF, 0⟩
  else if 0xF1 ≤ b ∧ b ≤ 0xF3 then some ⟨start, first, 3, 0x80, 0xBF, b - 0xF0⟩
  else if b = 0xF4 then some ⟨start, first, 3, 0x80, 0x8F, 4⟩
  else none

/-- Decodes the bytes from `offset` on, with the characters before them in `read`, last one first. -/
def decodeFrom : List UInt8 → Nat → Option Unfinished → List Char →
    Except Utf8Fault (List Char)
  | [], _, none, read => .ok read.reverse
  | [], offset, some u, _ => .error ⟨u.start, offset, u.first, .truncated⟩
  | b :: rest, offset, none, read =>
    if b.toNat < 0x80 then decodeFrom rest (offset + 1) none (Char.ofNat b.toNat :: read)
    else match beginning offset b with
      | some u => decodeFrom rest (offset + 1) (some u) read
      | none => .error ⟨offset, offset + 1, b, .badStart⟩
  | b :: rest, offset, some u, read =>
    if u.low ≤ b.toNat ∧ b.toNat ≤ u.high then
      let code := u.code * 0x40 + (b.toNat - 0x80)
      if u.missing ≤ 1 then decodeFrom rest (offset + 1) none (Char.ofNat code :: read)
      else decodeFrom rest (offset + 1) (some ⟨u.start, u.first, u.missing - 1, 0x80, 0xBF, code⟩) read
    else .error ⟨u.start, offset, u.first, .badContinuation⟩

/-- Adds the text to `done`, which is reversed, with one line feed for each line break. -/
def unifyBreaksOnto : List Char → List Char → List Char
  | done, [] => done.reverse
  | done, '\r' :: '\n' :: rest => unifyBreaksOnto ('\n' :: done) rest
  | done, '\r' :: rest => unifyBreaksOnto ('\n' :: done) rest
  | done, c :: rest => unifyBreaksOnto (c :: done) rest

/-- The text with one line feed for each line break. -/
def unifyBreaks (text : List Char) : List Char :=
  unifyBreaksOnto [] text

/-- The text that the bytes are written as. -/
def decodeUtf8 (bytes : List UInt8) : Except Utf8Fault (List Char) :=
  decodeFrom bytes 0 none []

end StraightLine.Text
