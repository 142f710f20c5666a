import SourceOrigin.Proofs.Text.Line

/-! Conditional trees: texts of lines in which groups of branches are nested to any depth. A tree tells
where each of its lines stands, so that what becomes of a line can be said without reading the text. -/
namespace SourceOrigin.Conditional

/-- A line without its line feed. No character of it breaks the line. -/
structure Line where
  text : Text
  unbroken : text.Unbroken := by decide

/-- A directive line but for its keyword: the blanks before the number sign, those before the keyword, and
what stands behind the keyword, which is either nothing or set apart by a blank. -/
structure DirectiveLine where
  indent : Text := []
  gap : Text := []
  behind : Text := []
  indent_inline : indent.Inline := by decide
  gap_inline : gap.Inline := by decide
  apart : behind.Apart := by decide
  unbroken : behind.Unbroken := by decide

def DirectiveLine.content (directive : DirectiveLine) (keyword : String) : Text :=
  directive.gap ++ keyword.toList ++ directive.behind

def DirectiveLine.text (directive : DirectiveLine) (keyword : String) : Text :=
  directive.indent ++ '#' :: directive.content keyword

/-- On what a branch depends: on what is written behind the keyword, or on nothing. -/
inductive Guard where
  | condition (written : Text)
  | otherwise
  deriving DecidableEq, Repr

mutual

/-- A sequence of items. An item is a group that opens with a condition and its body, or a line; lines may
be taken together, as where a comment runs over several of them. -/
inductive Tree where
  | empty
  | lines (lines : List Line) (rest : Tree)
  | group (opening : DirectiveLine) (body : Tree) (others : Branches) (rest : Tree)

/-- What follows the body of a branch: the directive that closes the group, or the next branch. A branch
without condition is a fallback; it comes last as a rule, but nothing here depends on that. -/
inductive Branches where
  | closing (directive : DirectiveLine)
  | branch (fallback : Bool) (directive : DirectiveLine) (body : Tree) (others : Branches)

end

def branchKeyword (fallback : Bool) : String := if fallback then "else" else "elif"

def branchGuard (fallback : Bool) (directive : DirectiveLine) : Guard :=
  if fallback then .otherwise else .condition directive.behind

def Branches.guards : Branches → List Guard
  | .closing _ => []
  | .branch fallback directive _ others => branchGuard fallback directive :: others.guards

mutual

def Tree.render : Tree → Text
  | .empty => []
  | .lines lines rest => Text.unlines (lines.map (·.text)) ++ rest.render
  | .group opening body others rest =>
    opening.text "if" ++ '\n' :: (body.render ++ others.render ++ rest.render)

def Branches.render : Branches → Text
  | .closing directive => directive.text "endif" ++ ['\n']
  | .branch fallback directive body others =>
    directive.text (branchKeyword fallback) ++ '\n' :: (body.render ++ others.render)

end

/-- A place within a group, given by the guards of the group and the number of a branch: inside the
branch, or at the directive that heads it. -/
inductive Place where
  | inside (guards : List Guard) (branch : Nat)
  | heading (guards : List Guard) (branch : Nat)
  deriving DecidableEq, Repr

/-- The lines of an item or a directive, with the places that they stand at, outermost first. The directives
that open and close a group belong to no branch of it. -/
structure Occurrence where
  places : List Place
  isDirective : Bool
  lines : List Text
  deriving DecidableEq, Repr

def Occurrence.within (place : Place) (occurrence : Occurrence) : Occurrence :=
  { occurrence with places := place :: occurrence.places }

mutual

def Tree.occurrences : Tree → List Occurrence
  | .empty => []
  | .lines lines rest => ⟨[], false, lines.map (·.text)⟩ :: rest.occurrences
  | .group opening body others rest =>
    let guards := .condition opening.behind :: others.guards
    ⟨[], true, [opening.text "if"]⟩ :: (body.occurrences.map (.within (.inside guards 0)) ++
      others.occurrences guards 1 ++ rest.occurrences)

def Branches.occurrences (guards : List Guard) (number : Nat) : Branches → List Occurrence
  | .closing directive => [⟨[], true, [directive.text "endif"]⟩]
  | .branch fallback directive body others =>
    ⟨[.heading guards number], true, [directive.text (branchKeyword fallback)]⟩ ::
      (body.occurrences.map (.within (.inside guards number)) ++
        others.occurrences guards (number + 1))

end

def Occurrence.text (occurrence : Occurrence) : Text := Text.unlines occurrence.lines

def textOf (occurrences : List Occurrence) : Text := occurrences.flatMap (·.text)

@[simp] theorem textOf_nil : textOf [] = [] := rfl

@[simp] theorem textOf_cons (occurrence : Occurrence) (occurrences : List Occurrence) :
    textOf (occurrence :: occurrences) = occurrence.text ++ textOf occurrences :=
  List.flatMap_cons

@[simp] theorem textOf_append (occurrences more : List Occurrence) :
    textOf (occurrences ++ more) = textOf occurrences ++ textOf more :=
  List.flatMap_append

@[simp] theorem textOf_within (place : Place) (occurrences : List Occurrence) :
    textOf (occurrences.map (.within place)) = textOf occurrences := by
  simp [textOf, List.flatMap_map, Occurrence.within, Occurrence.text]

mutual

theorem Tree.textOf_occurrences : ∀ tree : Tree, textOf tree.occurrences = tree.render
  | .empty => rfl
  | .lines lines rest => by
    rw [Tree.occurrences, textOf_cons, rest.textOf_occurrences, Tree.render, Occurrence.text]
  | .group opening body others rest => by
    rw [Tree.occurrences, textOf_cons, textOf_append, textOf_append, textOf_within,
      body.textOf_occurrences, others.textOf_occurrences, rest.textOf_occurrences, Tree.render]
    simp [Occurrence.text]

theorem Branches.textOf_occurrences (guards : List Guard) (number : Nat) :
    ∀ branches : Branches, textOf (branches.occurrences guards number) = branches.render
  | .closing directive => by simp [Branches.occurrences, Branches.render, Occurrence.text]
  | .branch fallback directive body others => by
    rw [Branches.occurrences, textOf_cons, textOf_append, textOf_within, body.textOf_occurrences,
      others.textOf_occurrences, Branches.render]
    simp [Occurrence.text]

end

-- The trees at which later theorems are read stand together: their directives share the proofs of their fields.

def nestedGroups : Tree :=
  .group { behind := " false".toList }
    (.group { gap := [' '], behind := " HOST".toList } (.lines [{ text := "token /* open".toList }] .empty)
      (.branch true {} .empty (.closing {})) .empty)
    (.branch false { indent := [' '], behind := " true // chosen".toList }
      (.lines [{ text := "\t/// live".toList }]
        (.group { behind := " HOST && false".toList } (.lines [{ text := "#region".toList }] .empty)
          (.branch true {} (.lines [{ text := [] }] .empty) (.closing {})) .empty))
      (.branch false { behind := " HOST".toList } (.lines [{ text := "dead".toList }] .empty)
        (.branch true {} (.lines [{ text := "dead too".toList }] .empty) (.closing {}))))
    (.lines [{ text := "//// live".toList }] .empty)

/-- A comment of two lines in a fallback that is selected where `HOST` is defined and `X` is not. -/
def commentFallback : Tree :=
  .group { behind := " HOST".toList }
    (.group { behind := " true && X".toList } (.lines [{ text := "// other".toList }] .empty)
      (.branch true {} (.lines [{ text := "/* <auto-generated>".toList }, { text := "*/".toList }] .empty)
        (.closing {})) .empty)
    (.closing {}) .empty

def headerGroup : Tree :=
  .group { behind := " false || X".toList } (.lines [{ text := "// <auto-generated/>".toList }] .empty)
    (.closing {}) .empty

end SourceOrigin.Conditional
