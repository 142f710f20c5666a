import SourceOrigin.Text.Case
import SourceOrigin.Text.Decimal

/-! File-name patterns: their structure, and the characters that a set admits when case does not
count. -/
namespace SourceOrigin

inductive SetMember where
  /-- All characters that are the same letter. -/
  | letter (c : Char)
  /-- All characters that have the given lower-case form. -/
  | lowerForm (c : Char)
  | range (first last : Char)
  | digit
  deriving DecidableEq, Repr

inductive RepetitionMode where
  /-- More times are tried before fewer. -/
  | greedy
  /-- Fewer times are tried before more. -/
  | lazy
  /-- As many times as there are, and nothing is given back. -/
  | possessive
  deriving DecidableEq, Repr

inductive Pattern where
  | empty
  | char (c : Char)
  | anyChar
  | oneOf (negated : Bool) (members : List SetMember)
  | textStart
  | textEnd
  | group (body : Pattern)
  | append (first second : Pattern)
  | either (first second : Pattern)
  | repeated (body : Pattern) (least : Nat) (most : Option Nat) (mode : RepetitionMode)
  deriving DecidableEq, Repr

namespace SetMember

/-- The last code point of the basic plane; sets treat the characters beyond it in their own way. -/
def lastBasic : Nat := 0xFFFF

/-- The member stands for the character. A range stands for all variants of its characters; if it goes
beyond the basic plane, a character is also looked for in it by the first character of its upper-case
form. -/
def admits (c : Char) : SetMember → Bool
  | letter d => Text.sameLetter d c
  | lowerForm d => Text.lowerChar c = d
  | range first last =>
    let holds (d : Char) : Bool := first ≤ d && d ≤ last
    holds c || (Text.variants c).any holds ||
      (lastBasic < last.toNat && (Text.upperChar (Text.lowerChar c)).head?.any holds)
  | digit => Text.isDigit c

/-- The member as one of several: there a character beyond the basic plane is compared with lower-case
forms only. -/
def amongOthers : SetMember → SetMember
  | letter c => if lastBasic < c.toNat then lowerForm c else letter c
  | member => member

end SetMember

namespace Pattern

def setAdmits (negated : Bool) (members : List SetMember) (c : Char) : Bool :=
  members.any (·.admits c) != negated

def sequence : List Pattern → Pattern
  | [] => .empty
  | [pattern] => pattern
  | first :: rest => .append first (sequence rest)

def ofMembers (negated : Bool) (members : List SetMember) : Pattern :=
  match members.eraseDups with
  | [.letter c] => if negated then .oneOf true [.letter c] else .char c
  | distinct => .oneOf negated (distinct.map SetMember.amongOthers)

end Pattern

end SourceOrigin
