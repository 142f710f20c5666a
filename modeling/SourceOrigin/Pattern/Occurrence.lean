import SourceOrigin.Pattern.Reading

/-! Whether a pattern occurs in a text. All places are followed at once: a pattern leads from the places
where it may begin to those where it may end. -/
namespace SourceOrigin.Pattern

/-- Places in a text, the last one first, each once. -/
abbrev Places := List Cursor

namespace Places

def onto (done : Places) (position : Nat) : Text → Places
  | [] => ⟨position, []⟩ :: done
  | c :: rest => onto (⟨position, c :: rest⟩ :: done) (position + 1) rest

def ofText (text : Text) : Places := onto [] 0 text

def union : Places → Places → Places
  | [], others => others
  | places, [] => places
  | a :: as, b :: bs =>
    if a.position = b.position then a :: union as bs
    else if b.position < a.position then a :: union as (b :: bs)
    else b :: union (a :: as) bs
termination_by places others => places.length + others.length

def without : Places → Places → Places
  | [], _ => []
  | places, [] => places
  | a :: as, b :: bs =>
    if a.position = b.position then without as bs
    else if b.position < a.position then a :: without as (b :: bs)
    else without (a :: as) bs
termination_by places others => places.length + others.length

def agree (places others : Places) : Bool := places.map (·.position) = others.map (·.position)

def ofCursors (cursors : List Cursor) : Places := cursors.foldr (fun cursor places => union [cursor] places) []

def times (move : Places → Places) : Nat → Places → Places
  | 0, places => places
  | n + 1, places =>
    let after := move places
    if after.agree places then after else times move n after

/-- The places that at most `n` moves lead to from those of the frontier, and those reached before. -/
def spread (move : Places → Places) : Nat → Places → Places → Places
  | 0, _, reached => reached
  | n + 1, frontier, reached =>
    let fresh := (move frontier).without reached
    if fresh.isEmpty then reached else spread move n fresh (fresh.union reached)

end Places

/-- The pattern twice in a row leads nowhere that it does not lead to once. -/
def isTransitive : Pattern → Bool
  | .group body => isTransitive body
  | .repeated body _ most mode => mode ≠ .possessive && (most.isNone || isTransitive body)
  | _ => false

/-- The places where the pattern may end, if it begins at one of the given places of a text of the given
length. -/
def reach (length : Nat) : Pattern → Places → Places
  | .empty, places => places
  | .char c, places => places.filterMap (·.over? (Text.sameLetter c))
  | .anyChar, places => places.filterMap (·.over? (· != '\n'))
  | .oneOf negated members, places => places.filterMap (·.over? (setAdmits negated members))
  | .textStart, places => places.filter (·.isStart)
  | .textEnd, places => places.filter (·.isEnd)
  | .group body, places => reach length body places
  | .append first second, places => reach length second (reach length first places)
  | .either first second, places => (reach length first places).union (reach length second places)
  | .repeated body least most mode, places =>
    let needed := neededTimes length least
    let further := furtherTimes length least most
    if mode = .possessive then
      .ofCursors (places.filterMap (behindPossessive (reader length body) needed further))
    else
      let rounds := if body.isTransitive then min further (1 - needed) else further
      let reached := Places.times (reach length body) needed places
      Places.spread (reach length body) rounds reached reached

def occursIn (pattern : Pattern) (name : Text) : Bool :=
  !(reach name.length pattern (.ofText name)).isEmpty

end SourceOrigin.Pattern
