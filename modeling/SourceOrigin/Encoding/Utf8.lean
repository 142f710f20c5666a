import SourceOrigin.Text.Basic

/-! UTF-8: the bytes of a text, and a decoder that reads one byte at a time and says which bytes it
cannot read. -/
namespace SourceOrigin

abbrev Bytes := List UInt8

inductive DecodeReason where
  | invalidStart
  | invalidContinuation
  | unexpectedEnd
  | notAscii
  deriving DecidableEq, Repr

/-- The bytes from position `start` up to `stop` cannot be read; `first` is the first of them. -/
structure DecodeFault where
  start : Nat
  stop : Nat
  first : UInt8
  reason : DecodeReason
  deriving DecidableEq, Repr

namespace Utf8

def byte (n : Nat) : UInt8 := UInt8.ofNat n

def encodeChar (c : Char) : Bytes :=
  let n := c.toNat
  if n < 0x80 then [byte n]
  else if n < 0x800 then [byte (0xC0 + n / 64), byte (0x80 + n % 64)]
  else if n < 0x10000 then
    [byte (0xE0 + n / 4096), byte (0x80 + n / 64 % 64), byte (0x80 + n % 64)]
  else
    [byte (0xF0 + n / 262144), byte (0x80 + n / 4096 % 64), byte (0x80 + n / 64 % 64),
      byte (0x80 + n % 64)]

def encode (text : Text) : Bytes := text.flatMap encodeChar

/-- A character of which some bytes are read: where it starts and with which byte, how many bytes are
owed, the range in which the next of them must lie, and the code point so far. -/
structure Partial where
  start : Nat
  first : UInt8
  owed : Nat
  low : Nat
  high : Nat
  value : Nat
  deriving DecidableEq, Repr

/-- What a first byte announces. The ranges exclude overlong forms, surrogates and code points
above U+10FFFF; a byte that starts no character announces nothing. -/
def Partial.ofFirst? (position : Nat) (first : UInt8) : Option Partial :=
  let n := first.toNat
  if n < 0x80 then some ⟨position, first, 0, 0x80, 0xBF, n⟩
  else if n < 0xC2 then none
  else if n < 0xE0 then some ⟨position, first, 1, 0x80, 0xBF, n - 0xC0⟩
  else if n = 0xE0 then some ⟨position, first, 2, 0xA0, 0xBF, 0⟩
  else if n = 0xED then some ⟨position, first, 2, 0x80, 0x9F, n - 0xE0⟩
  else if n < 0xF0 then some ⟨position, first, 2, 0x80, 0xBF, n - 0xE0⟩
  else if n = 0xF0 then some ⟨position, first, 3, 0x90, 0xBF, 0⟩
  else if n < 0xF4 then some ⟨position, first, 3, 0x80, 0xBF, n - 0xF0⟩
  else if n = 0xF4 then some ⟨position, first, 3, 0x80, 0x8F, n - 0xF0⟩
  else none

/-- Takes the next byte of the character. Only the first byte after the start has a range of its own. -/
def Partial.next? (p : Partial) (b : UInt8) : Option Partial :=
  if p.low ≤ b.toNat && b.toNat ≤ p.high then
    some ⟨p.start, p.first, p.owed - 1, 0x80, 0xBF, 64 * p.value + (b.toNat - 0x80)⟩
  else none

/-- Decodes the bytes from `position` on, behind the characters in `done` (latest first) and the bytes
of an unfinished character. The bytes at fault are the longest legal beginning of a character. -/
def decodeFrom (position : Nat) (done : Text) : Option Partial → Bytes → Except DecodeFault Text
  | none, [] => .ok done.reverse
  | some p, [] => .error ⟨p.start, position, p.first, .unexpectedEnd⟩
  | none, b :: rest =>
    match Partial.ofFirst? position b with
    | none => .error ⟨position, position + 1, b, .invalidStart⟩
    | some p =>
      if p.owed = 0 then decodeFrom (position + 1) (Char.ofNat p.value :: done) none rest
      else decodeFrom (position + 1) done (some p) rest
  | some p, b :: rest =>
    match p.next? b with
    | none => .error ⟨p.start, position, p.first, .invalidContinuation⟩
    | some q =>
      if q.owed = 0 then decodeFrom (position + 1) (Char.ofNat q.value :: done) none rest
      else decodeFrom (position + 1) done (some q) rest

def decode (bytes : Bytes) : Except DecodeFault Text := decodeFrom 0 [] none bytes

end Utf8

end SourceOrigin
