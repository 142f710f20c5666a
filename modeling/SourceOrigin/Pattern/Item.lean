import SourceOrigin.Pattern.Basic
import SourceOrigin.Pattern.Error

/-! The written form of a pattern, cut into lexemes and then into items: single characters, sets,
repetitions and the signs of grouping. -/
namespace SourceOrigin.Pattern

/-- A character of a written pattern, or a character behind a backslash. Nothing can be read from a
`spoiled` sign: it is the last one, and a lone backslash follows it or is it. -/
inductive Sign where
  | plain (c : Char)
  | escaped (c : Char)
  | spoiled (closing : Bool)
  deriving DecidableEq, Repr

structure Lexeme where
  position : Nat
  sign : Sign
  deriving DecidableEq, Repr

/-- The lexemes of a written pattern that starts at the given position. A backslash at the end of the
pattern spoils the sign before it: the fault shows as soon as that one is read. -/
def lexemesFrom (position : Nat) : Text → List Lexeme
  | [] => []
  | ['\\'] => [⟨position, .spoiled false⟩]
  | ['\\', _, '\\'] => [⟨position + 2, .spoiled false⟩]
  | '\\' :: c :: rest => ⟨position, .escaped c⟩ :: lexemesFrom (position + 2) rest
  | [c, '\\'] => [⟨position + 1, .spoiled (c = ')')⟩]
  | c :: rest => ⟨position, .plain c⟩ :: lexemesFrom (position + 1) rest

def Sign.written : Sign → Text
  | .plain c => [c]
  | .escaped c => ['\\', c]
  | .spoiled _ => []

/-- The set member that a sign stands for alone. Nothing is asked of a spoiled sign, which is a fault
wherever it is read. -/
def Sign.member : Sign → SetMember
  | .plain c => .letter c
  | .escaped c => if c = 'd' then .digit else .letter c
  | .spoiled _ => .letter '\\'

inductive Item where
  | part (pattern : Pattern)
  | anchor (pattern : Pattern)
  | repetition (position : Nat) (least : Nat) (most : Option Nat) (mode : RepetitionMode)
  | opening (position : Nat) (captures : Bool)
  | closing (position : Nat)
  | alternative
  /-- The items end here because of a fault. -/
  | fault (fault : PatternFault) (position : Nat)
  /-- A closing parenthesis that a lone backslash follows at the end of the pattern. -/
  | spoiledClosing (position : Nat)
  deriving DecidableEq, Repr

def rangeOf (first last : Lexeme) : Except (PatternFault × Nat) SetMember :=
  match first.sign.member, last.sign.member with
  | .letter c, .letter d =>
    if c ≤ d then .ok (.range c d)
    else .error (.badRange first.sign.written last.sign.written, first.position)
  | _, _ => .error (.badRange first.sign.written last.sign.written, first.position)

/-- The members of a set up to its closing bracket, behind those in `done` (latest first), and the
lexemes after it. `start` is the place of the opening bracket. A closing bracket that would leave the
set without members is a member itself. -/
def readMembers (start : Nat) (done : List SetMember) :
    List Lexeme → Except (PatternFault × Nat) (List SetMember × List Lexeme)
  | [] => .error (.openSet, start)
  | ⟨backslash, .spoiled _⟩ :: _ => .error (.danglingBackslash, backslash)
  | first :: ⟨dash, .plain '-'⟩ :: rest =>
    if first.sign = .plain ']' && !done.isEmpty then .ok (done.reverse, ⟨dash, .plain '-'⟩ :: rest)
    else match rest with
      | [] => .error (.openSet, start)
      | ⟨backslash, .spoiled _⟩ :: _ => .error (.danglingBackslash, backslash)
      | ⟨_, .plain ']'⟩ :: rest => .ok ((.letter '-' :: first.sign.member :: done).reverse, rest)
      | last :: rest =>
        match rangeOf first last with
        | .error e => .error e
        | .ok member => readMembers start (member :: done) rest
  | first :: rest =>
    if first.sign = .plain ']' && !done.isEmpty then .ok (done.reverse, rest)
    else readMembers start (first.sign.member :: done) rest

private theorem length_readMembers_le {start : Nat} {done members : List SetMember}
    {lexemes rest : List Lexeme} (h : readMembers start done lexemes = .ok (members, rest)) :
    rest.length ≤ lexemes.length := by
  fun_induction readMembers start done lexemes <;> simp_all <;> grind

def Lexeme.isPlain (c : Char) (lexeme : Lexeme) : Bool := lexeme.sign = .plain c

def readNumber (lexemes : List Lexeme) : Text × List Lexeme :=
  let isDigit (lexeme : Lexeme) : Bool :=
    match lexeme.sign with
    | .plain c => c.isDigit
    | _ => false
  ((lexemes.takeWhile isDigit).flatMap (·.sign.written), lexemes.dropWhile isDigit)

def repetitionLimit : Nat := 4294967295

def boundOf (digits : Text) : Except PatternFault (Option Nat) :=
  if digits = [] then .ok none
  else if Text.maxDigits < digits.length then .error (.tooManyDigits digits.length)
  else
    let bound := digits.foldl (fun n c => 10 * n + (c.toNat - '0'.toNat)) 0
    if repetitionLimit ≤ bound then .error .tooManyRepetitions else .ok (some bound)

/-- The digits of the bounds between braces, behind the opening one: one number, or two with a comma of
which either may be missing. Anything else makes the opening brace an ordinary character. -/
def readBounds? (lexemes : List Lexeme) : Option (Text × Text × List Lexeme) :=
  let (low, rest) := readNumber lexemes
  match rest with
  | ⟨_, .plain ','⟩ :: rest =>
    let (high, rest) := readNumber rest
    match rest with
    | ⟨_, .plain '\x7d'⟩ :: rest => some (low, high, rest)
    | _ => none
  | ⟨_, .plain '\x7d'⟩ :: rest => if low = [] then none else some (low, low, rest)
  | _ => none

/-- The repetition between the bounds that are written, of which the first is zero if it is missing.
The first bound that cannot be counted is reported. -/
def boundsOf (low high : Text) : Except PatternFault (Nat × Option Nat) :=
  match boundOf low with
  | .error fault => .error fault
  | .ok least =>
    match boundOf high with
    | .error fault => .error fault
    | .ok most =>
      if most.any (· < least.getD 0) then .error .badBounds else .ok (least.getD 0, most)

def readMode : List Lexeme → RepetitionMode × List Lexeme
  | ⟨_, .plain '?'⟩ :: rest => (.lazy, rest)
  | ⟨_, .plain '+'⟩ :: rest => (.possessive, rest)
  | rest => (.greedy, rest)

private theorem length_readMode_le (lexemes : List Lexeme) : (readMode lexemes).2.length ≤ lexemes.length := by
  fun_cases readMode lexemes <;> simp_all

private theorem length_readNumber_le (lexemes : List Lexeme) :
    (readNumber lexemes).2.length ≤ lexemes.length :=
  (List.dropWhile_suffix _).sublist.length_le

private theorem length_readBounds_le {lexemes rest : List Lexeme} {low high : Text}
    (h : readBounds? lexemes = some (low, high, rest)) : rest.length ≤ lexemes.length := by
  have hlow := length_readNumber_le lexemes
  unfold readBounds? at h
  grind [length_readNumber_le]

def readSet (position : Nat) (lexemes : List Lexeme) : Item × List Lexeme :=
  let negated := lexemes.head?.any (Lexeme.isPlain '^')
  match readMembers position [] (lexemes.drop (if negated then 1 else 0)) with
  | .error (fault, place) => (.fault fault place, [])
  | .ok (members, rest) => (.part (ofMembers negated members), rest)

def readRepetition (position least : Nat) (most : Option Nat) (lexemes : List Lexeme) :
    Item × List Lexeme :=
  let (mode, rest) := readMode lexemes
  (.repetition position least most mode, rest)

def readBrace (position : Nat) (lexemes : List Lexeme) : Item × List Lexeme :=
  match readBounds? lexemes with
  | none => (.part (.char '\x7b'), lexemes)
  | some (low, high, rest) =>
    match boundsOf low high with
    | .error fault => (.fault fault (position + 1), [])
    | .ok (least, most) => readRepetition position least most rest

def readOpening (position : Nat) : List Lexeme → Item × List Lexeme
  | ⟨_, .plain '?'⟩ :: ⟨_, .plain ':'⟩ :: rest => (.opening position false, rest)
  | ⟨_, .plain '?'⟩ :: ⟨backslash, .spoiled _⟩ :: _ => (.fault .danglingBackslash backslash, [])
  | ⟨mark, .plain '?'⟩ :: ⟨_, sign⟩ :: _ => (.fault (.unknownExtension sign.written) mark, [])
  | [⟨mark, .plain '?'⟩] => (.fault .unexpectedEnd (mark + 1), [])
  | rest => (.opening position true, rest)

def readItem : Lexeme → List Lexeme → Item × List Lexeme
  | ⟨position, .spoiled closing⟩, _ =>
    (if closing then .spoiledClosing position else .fault .danglingBackslash position, [])
  | ⟨_, .escaped c⟩, rest => (.part (if c = 'd' then .oneOf false [.digit] else .char c), rest)
  | ⟨position, .plain c⟩, rest =>
    match c with
    | '[' => readSet position rest
    | '\x7b' => readBrace position rest
    | '(' => readOpening position rest
    | ')' => (.closing position, rest)
    | '|' => (.alternative, rest)
    | '*' => readRepetition position 0 none rest
    | '+' => readRepetition position 1 none rest
    | '?' => readRepetition position 0 (some 1) rest
    | '.' => (.part .anyChar, rest)
    | '^' => (.anchor .textStart, rest)
    | '$' => (.anchor .textEnd, rest)
    | c => (.part (.char c), rest)

private theorem length_readSet_le (position : Nat) (lexemes : List Lexeme) :
    (readSet position lexemes).2.length ≤ lexemes.length := by
  unfold readSet
  dsimp only
  split
  · simp
  · next h =>
    refine Nat.le_trans (length_readMembers_le h) ?_
    rw [List.length_drop]
    exact Nat.sub_le _ _

private theorem length_readRepetition_le (position least : Nat) (most : Option Nat)
    (lexemes : List Lexeme) :
    (readRepetition position least most lexemes).2.length ≤ lexemes.length :=
  length_readMode_le lexemes

private theorem length_readBrace_le (position : Nat) (lexemes : List Lexeme) :
    (readBrace position lexemes).2.length ≤ lexemes.length := by
  unfold readBrace
  split
  · simp
  · next rest h =>
    split
    · simp
    · exact Nat.le_trans (length_readRepetition_le _ _ _ rest) (length_readBounds_le h)

private theorem length_readOpening_le (position : Nat) (lexemes : List Lexeme) :
    (readOpening position lexemes).2.length ≤ lexemes.length := by
  fun_cases readOpening position lexemes
  all_goals simp
  all_goals omega

private theorem length_readItem_le (first : Lexeme) (rest : List Lexeme) :
    (readItem first rest).2.length ≤ rest.length := by
  unfold readItem
  split
  · simp
  · simp
  · split <;>
      simp [length_readSet_le, length_readBrace_le, length_readOpening_le, length_readRepetition_le]

def itemsFrom : List Lexeme → List Item
  | [] => []
  | first :: rest => (readItem first rest).1 :: itemsFrom (readItem first rest).2
termination_by lexemes => lexemes.length
decreasing_by exact Nat.lt_succ_of_le (length_readItem_le first rest)

def itemsOf (written : Text) : List Item := itemsFrom (lexemesFrom 0 written)

end SourceOrigin.Pattern
