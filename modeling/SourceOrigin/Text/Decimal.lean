import SourceOrigin.Text.Blank

/-! Decimal numerals: reading integers as a user may type them, and writing counts and sizes. -/
namespace SourceOrigin.Text

/-- The digits zero of Unicode 14; each is followed by the other nine digits of its script. -/
def zeroDigits : List Nat := [
  0x30, 0x660, 0x6F0, 0x7C0, 0x966, 0x9E6, 0xA66, 0xAE6, 0xB66, 0xBE6, 0xC66, 0xCE6, 0xD66,
  0xDE6, 0xE50, 0xED0, 0xF20, 0x1040, 0x1090, 0x17E0, 0x1810, 0x1946, 0x19D0, 0x1A80, 0x1A90,
  0x1B50, 0x1BB0, 0x1C40, 0x1C50, 0xA620, 0xA8D0, 0xA900, 0xA9D0, 0xA9F0, 0xAA50, 0xABF0,
  0xFF10, 0x104A0, 0x10D30, 0x11066, 0x110F0, 0x11136, 0x111D0, 0x112F0, 0x11450, 0x114D0,
  0x11650, 0x116C0, 0x11730, 0x118E0, 0x11950, 0x11C50, 0x11D50, 0x11DA0, 0x16A60, 0x16AC0,
  0x16B50, 0x1D7CE, 0x1D7D8, 0x1D7E2, 0x1D7EC, 0x1D7F6, 0x1E140, 0x1E2F0, 0x1E950, 0x1FBF0]

def digitValue? (c : Char) : Option Nat :=
  (zeroDigits.find? fun first => first ≤ c.toNat && c.toNat < first + 10).map (c.toNat - ·)

def isDigit (c : Char) : Bool := (digitValue? c).isSome

inductive NumeralError where
  | malformed
  | tooLong (digits : Nat)
  deriving DecidableEq, Repr

def maxDigits : Nat := 4300

def tooLongMessage (digits : Nat) : String :=
  s!"Exceeds the limit ({maxDigits} digits) for integer string conversion: " ++
    s!"value has {digits} digits; use sys.set_int_max_str_digits() to increase the limit"

/-- Blanks around a numeral, which do not include the four information separators. -/
def isMargin (c : Char) : Bool := isBlank c && !(0x1C ≤ c.toNat && c.toNat ≤ 0x1F)

/-- Reads digits behind those whose value and number are given, with single underscores between them.
The text may begin with an underscore only behind a digit. -/
def readDigits (value count : Nat) (afterDigit : Bool) : Text → Except NumeralError Nat
  | [] =>
    if !afterDigit then .error .malformed
    else if maxDigits < count then .error (.tooLong count)
    else .ok value
  | c :: rest =>
    match digitValue? c with
    | some digit => readDigits (10 * value + digit) (count + 1) true rest
    | none =>
      if c = '_' && afterDigit then readDigits value count false rest
      else if afterDigit && maxDigits < count then .error (.tooLong count)
      else .error .malformed

def trimmed (text : Text) : Text := ((text.dropWhile isMargin).reverse.dropWhile isMargin).reverse

/-- The integer written by a text: a sign or none and decimal digits of any script, which single
underscores may separate, with blanks around. -/
def readInt (text : Text) : Except NumeralError Int :=
  match trimmed text with
  | '-' :: rest => (readDigits 0 0 false rest).map (-Int.ofNat ·)
  | '+' :: rest => (readDigits 0 0 false rest).map Int.ofNat
  | rest => (readDigits 0 0 false rest).map Int.ofNat

def decimal (n : Nat) : Text := Nat.toDigits 10 n

def decimalInt : Int → Text
  | .ofNat n => decimal n
  | .negSucc n => '-' :: decimal (n + 1)

def groupOnto (done : Text) : Text → Text
  | a :: b :: c :: d :: rest => groupOnto (',' :: c :: b :: a :: done) (d :: rest)
  | last => last.reverse ++ done

def grouped (n : Nat) : Text := groupOnto [] (decimal n).reverse

/-- The quotient to one decimal place; an exact half goes to the even neighbour. -/
def tenths (numerator denominator : Nat) : Text :=
  let scaled := 10 * numerator
  let quotient := scaled / denominator
  let twice := 2 * (scaled % denominator)
  let rounded :=
    if denominator < twice || (twice = denominator && quotient % 2 = 1) then quotient + 1 else quotient
  decimal (rounded / 10) ++ '.' :: decimal (rounded % 10)

end SourceOrigin.Text
