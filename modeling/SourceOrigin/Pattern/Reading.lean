import SourceOrigin.Pattern.Basic

/-! The reading of a pattern at one place of a text, with its ways in order of preference. The order
matters to repetitions that give nothing back: they keep the first way. -/
namespace SourceOrigin.Pattern

/-- A place in a text: the number of characters before it, and those behind it. -/
structure Cursor where
  position : Nat
  rest : Text
  deriving DecidableEq, Repr

namespace Cursor

def over? (test : Char → Bool) : Cursor → Option Cursor
  | ⟨position, c :: rest⟩ => if test c then some ⟨position + 1, rest⟩ else none
  | ⟨_, []⟩ => none

def isStart (cursor : Cursor) : Bool := cursor.position = 0

/-- The place is the end of the text, or only a final line feed is behind it. -/
def isEnd (cursor : Cursor) : Bool := cursor.rest = [] || cursor.rest = ['\n']

end Cursor

/-- What one part of a pattern does: it is read in one way after the other, until what follows can be
read behind it. The result is the place where that ends. -/
abbrev Reader := (Cursor → Option Cursor) → Cursor → Option Cursor

def exactly (part : Reader) : Nat → Reader
  | 0, next, cursor => next cursor
  | n + 1, next, cursor => part (exactly part n next) cursor

/-- The part at most `n` times in a row, the more the better. A repetition that reads nothing ends the
row, since more of them would change nothing. -/
def atMost (part : Reader) : Nat → Reader
  | 0, next, cursor => next cursor
  | n + 1, next, cursor =>
    part (fun after => if after.position = cursor.position then next after else atMost part n next after)
        cursor <|>
      next cursor

def atMostLazily (part : Reader) : Nat → Reader
  | 0, next, cursor => next cursor
  | n + 1, next, cursor =>
    next cursor <|>
      part (fun after => if after.position = cursor.position then none else atMostLazily part n next after)
        cursor

def behindEach (part : Reader) : Nat → Cursor → Option Cursor
  | 0, cursor => some cursor
  | n + 1, cursor => (part some cursor).bind (behindEach part n)

def behindAll (part : Reader) : Nat → Cursor → Cursor
  | 0, cursor => cursor
  | n + 1, cursor =>
    match part some cursor with
    | none => cursor
    | some after => if after.position = cursor.position then after else behindAll part n after

def behindPossessive (part : Reader) (needed further : Nat) (cursor : Cursor) : Option Cursor :=
  (behindEach part needed cursor).map (behindAll part further)

/-- How often a part that is repeated `least` times is read in a text of the given length. No more
repetitions than characters read something, and one that reads nothing is as good as many. -/
def neededTimes (length least : Nat) : Nat := min least (length + 1)

def furtherTimes (length least : Nat) (most : Option Nat) : Nat :=
  min ((most.map (· - least)).getD length) length

def reader (length : Nat) : Pattern → Reader
  | .empty, next, cursor => next cursor
  | .char c, next, cursor => (cursor.over? (Text.sameLetter c)).bind next
  | .anyChar, next, cursor => (cursor.over? (· != '\n')).bind next
  | .oneOf negated members, next, cursor => (cursor.over? (setAdmits negated members)).bind next
  | .textStart, next, cursor => if cursor.isStart then next cursor else none
  | .textEnd, next, cursor => if cursor.isEnd then next cursor else none
  | .group body, next, cursor => reader length body next cursor
  | .append first second, next, cursor => reader length first (reader length second next) cursor
  | .either first second, next, cursor =>
    reader length first next cursor <|> reader length second next cursor
  | .repeated body least most mode, next, cursor =>
    let needed := neededTimes length least
    let further := furtherTimes length least most
    match mode with
    | .greedy => exactly (reader length body) needed (atMost (reader length body) further next) cursor
    | .lazy => exactly (reader length body) needed (atMostLazily (reader length body) further next) cursor
    | .possessive => (behindPossessive (reader length body) needed further cursor).bind next

end SourceOrigin.Pattern
