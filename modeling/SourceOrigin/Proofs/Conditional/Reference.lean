import SourceOrigin.Proofs.Conditional.Tree
import SourceOrigin.Source.Trivia
import SourceOrigin.Source.Directive

/-! Which lines of a conditional tree are dead, and the trivia that its text should have: those of the
live lines, and one piece of disabled text for every run of dead ones. The definitions go by the tree, so
they know neither a stack of open conditionals nor a depth. -/
namespace SourceOrigin.Conditional

/-- What a guard tells by the first word behind its keyword, which is the second word of the directive.
Only the words `true` and `false` tell anything, and a fallback always holds. -/
def Guard.reading : Guard → Condition
  | .otherwise => .holds
  | .condition written =>
    if (Text.words written).head? = some "true".toList then .holds
    else if (Text.words written).head? = some "false".toList then .fails
    else .symbolic

def decisive (conditions : List Condition) : Option Nat := conditions.findIdx? (· ≠ .fails)

def isSpent (conditions : List Condition) (number : Nat) : Bool :=
  match decisive conditions with
  | none => false
  | some first => first < number && conditions[first]? = some .holds

/-- A branch is dead if it comes before the first that is not known to fail, or is spent. -/
def isDead (conditions : List Condition) (number : Nat) : Bool :=
  match decisive conditions with
  | none => true
  | some first => number < first || isSpent conditions number

/-- Everything inside a dead branch is dead. The directive that heads a branch is dead if the branch before
it was spent already: from the first spent branch on nothing is read up to the end of the group. -/
def Place.isDead : Place → Bool
  | .inside guards number => Conditional.isDead (guards.map (·.reading)) number
  | .heading guards number => isSpent (guards.map (·.reading)) (number - 1)

def Occurrence.isDead (occurrence : Occurrence) : Bool := occurrence.places.any (·.isDead)

structure MarkedLines where
  dead : Bool
  lines : List Text
  deriving DecidableEq, Repr

def Occurrence.mark (occurrence : Occurrence) : MarkedLines := ⟨occurrence.isDead, occurrence.lines⟩

def optionalPiece (kind : TriviaKind) (text : Text) : List Trivia :=
  if text = [] then [] else [⟨kind, text⟩]

def feed : Trivia := ⟨.endOfLine, ['\n']⟩

def commentKind (comment : Text) : TriviaKind :=
  if "///".toList <+: comment ∧ ¬ "////".toList <+: comment then .lineDocComment else .lineComment

theorem commentKind_ne_disabledText (comment : Text) : commentKind comment ≠ .disabledText := by
  unfold commentKind
  split <;> simp

def lineTrivia (line : Text) : List Trivia :=
  optionalPiece .whitespace (line.takeWhile Text.isBlank) ++
    match line.dropWhile Text.isBlank with
    | [] => []
    | '#' :: rest => [⟨.directive, '#' :: rest⟩]
    | comment => [⟨commentKind comment, comment⟩]

def linesTrivia (lines : List Text) : List Trivia := lines.flatMap (lineTrivia · ++ [feed])

/-- The trivia of lines, behind dead lines that are still to be put together. -/
def assemble (pending : Text) : List MarkedLines → List Trivia
  | [] => optionalPiece .disabledText pending
  | ⟨true, lines⟩ :: rest => assemble (pending ++ Text.unlines lines) rest
  | ⟨false, lines⟩ :: rest =>
    optionalPiece .disabledText pending ++ linesTrivia lines ++ assemble [] rest

def Tree.trivia (tree : Tree) : List Trivia := assemble [] (tree.occurrences.map (·.mark))

def conditionalKeywords : List Text := ["if", "elif", "else", "endif"].map (·.toList)

def isConditional (line : Text) : Bool :=
  match line.dropWhile Text.isBlank with
  | '#' :: rest => (Text.words rest).head?.any conditionalKeywords.contains
  | _ => false

/-- Behind its blanks the line holds nothing, a line comment, or a directive of another kind. -/
def isPlain (line : Text) : Bool :=
  match line.dropWhile Text.isBlank with
  | [] => true
  | '#' :: _ => !isConditional line
  | '/' :: '/' :: _ => true
  | _ => false

/-- The lines of a tree are of the kinds that its reading is told for: plain where they are live, and
anything but conditional directives where they are dead. -/
def Tree.Regular (tree : Tree) : Prop :=
  ∀ occurrence ∈ tree.occurrences, occurrence.isDirective = false → ∀ line ∈ occurrence.lines,
    if occurrence.isDead then isConditional line = false else isPlain line = true

instance (tree : Tree) : Decidable tree.Regular :=
  inferInstanceAs (Decidable (∀ _ ∈ _, _ = false → ∀ _ ∈ _, ite _ (_ = false) (_ = true)))

end SourceOrigin.Conditional
