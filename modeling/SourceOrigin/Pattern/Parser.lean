import SourceOrigin.Pattern.Item

/-! From items to a pattern: groups, alternatives and repetitions. -/
namespace SourceOrigin.Pattern

inductive Standing where
  | repeatable
  | repeated
  | anchor
  deriving DecidableEq, Repr

/-- A group that is being read: the place of its opening parenthesis, whether it stands for one part,
its alternatives so far and the pieces of the alternative at hand, both latest first. A piece is what a
repetition applies to; it may have several parts. -/
structure Group where
  position : Nat := 0
  captures : Bool := true
  alternatives : List (List Pattern) := []
  pieces : List (Standing × List Pattern) := []
  deriving Repr

/-- The parts that alternatives may have in common: no groups, no alternatives and no repetitions. -/
def isAtomic : Pattern → Bool
  | .char _ | .anyChar | .oneOf .. | .textStart | .textEnd => true
  | _ => false

def commonBeginning (others : List (List Pattern)) : List Pattern → List Pattern
  | [] => []
  | first :: rest =>
    if first.isAtomic && others.all (·.head? = some first) then
      first :: commonBeginning (others.map (·.drop 1)) rest
    else []

def membersOf? : List Pattern → Option (List SetMember)
  | [.char c] => some [.letter c]
  | [.oneOf false members] => some members
  | _ => none

def allMembers? : List (List Pattern) → Option (List SetMember)
  | [] => some []
  | first :: rest =>
    match membersOf? first, allMembers? rest with
    | some members, some others => some (members ++ others)
    | _, _ => none

def choice : List (List Pattern) → Pattern
  | [] => .empty
  | [parts] => sequence parts
  | parts :: rest => .either (sequence parts) (choice rest)

/-- The parts that alternatives make up. What all of them begin with is read once, and single
characters make up one set. -/
def partsOf (alternatives : List (List Pattern)) : List Pattern :=
  match alternatives with
  | [] => []
  | [parts] => parts
  | first :: others =>
    let shared := commonBeginning others first
    let remaining := alternatives.map (·.drop shared.length)
    match allMembers? remaining with
    | some members => shared ++ [.oneOf false (members.eraseDups.map SetMember.amongOthers)]
    | none => shared ++ [choice remaining]

namespace Group

def current (group : Group) : List Pattern := group.pieces.reverse.flatMap (·.2)

def parts (group : Group) : List Pattern := partsOf (group.current :: group.alternatives).reverse

def push (group : Group) (standing : Standing) (parts : List Pattern) : Group :=
  { group with pieces := (standing, parts) :: group.pieces }

def piece (group : Group) : List Pattern :=
  if group.captures then [.group (sequence group.parts)] else group.parts

def endAlternative (group : Group) : Group :=
  { group with alternatives := group.current :: group.alternatives, pieces := [] }

/-- The last piece becomes repeated. A repetition needs something to repeat, which an anchor is not, and
does not apply to another repetition. -/
def repeatLast (group : Group) (least : Nat) (most : Option Nat) (mode : RepetitionMode) :
    Except PatternFault Group :=
  match group.pieces with
  | [] => .error .nothingToRepeat
  | (.anchor, _) :: _ => .error .nothingToRepeat
  | (.repeated, _) :: _ => .error .multipleRepeat
  | (.repeatable, body) :: pieces =>
    .ok { group with pieces := (.repeated, [.repeated (sequence body) least most mode]) :: pieces }

end Group

/-- Reads the items into the innermost open group; the groups around it are given from inside out. A
fault comes with its position. -/
def assemble (group : Group) (outer : List Group) : List Item → Except (PatternFault × Nat) Pattern
  | [] =>
    match outer with
    | [] => .ok (sequence group.parts)
    | _ :: _ => .error (.openGroup, group.position)
  | .part pattern :: rest => assemble (group.push .repeatable [pattern]) outer rest
  | .anchor pattern :: rest => assemble (group.push .anchor [pattern]) outer rest
  | .repetition position least most mode :: rest =>
    match group.repeatLast least most mode with
    | .ok group => assemble group outer rest
    | .error fault => .error (fault, position)
  | .opening position captures :: rest => assemble { position, captures } (group :: outer) rest
  | .closing position :: rest =>
    match outer with
    | [] => .error (.unbalancedParenthesis, position)
    | parent :: outer => assemble (parent.push .repeatable group.piece) outer rest
  | .alternative :: rest => assemble group.endAlternative outer rest
  | .fault fault position :: _ => .error (fault, position)
  | .spoiledClosing position :: _ =>
    match outer with
    | [] => .error (.unbalancedParenthesis, position - 1)
    | _ :: _ => .error (.danglingBackslash, position)

def parse (written : Text) : Except PatternError Pattern :=
  (assemble {} [] (itemsOf written)).mapError fun (fault, position) => .misread fault position written

end SourceOrigin.Pattern
