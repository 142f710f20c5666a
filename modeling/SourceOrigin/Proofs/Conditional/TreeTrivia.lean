import SourceOrigin.Proofs.Conditional.TreeReading

/-! The trivia of a conditional tree. If the live lines hold nothing but comments and directives, its text
holds no token, and its trivia are those that the dead and live lines call for. -/
namespace SourceOrigin

namespace Conditional
open Lexer (Reading)

mutual

private theorem Tree.forall_occurrence {P : Bool → List Text → Prop}
    (hlines : ∀ lines : List Line, P false (lines.map (·.text)))
    (hdirective : ∀ (directive : DirectiveLine) (keyword : String), IsWord keyword →
      P true [directive.text keyword]) :
    ∀ (tree : Tree), ∀ occurrence ∈ tree.occurrences, P occurrence.isDirective occurrence.lines
  | .empty => by simp [Tree.occurrences]
  | .lines lines tree => by
    rw [Tree.occurrences, List.forall_mem_cons]
    exact ⟨hlines lines, tree.forall_occurrence hlines hdirective⟩
  | .group opening body others tree => by
    rw [Tree.occurrences, List.forall_mem_cons, List.forall_mem_append, List.forall_mem_append,
      List.forall_mem_map]
    exact ⟨hdirective opening "if" (by decide), ⟨body.forall_occurrence hlines hdirective,
      others.forall_occurrence hlines hdirective _ _⟩, tree.forall_occurrence hlines hdirective⟩

private theorem Branches.forall_occurrence {P : Bool → List Text → Prop}
    (hlines : ∀ lines : List Line, P false (lines.map (·.text)))
    (hdirective : ∀ (directive : DirectiveLine) (keyword : String), IsWord keyword →
      P true [directive.text keyword]) (guards : List Guard) :
    ∀ (number : Nat) (branches : Branches),
      ∀ occurrence ∈ branches.occurrences guards number, P occurrence.isDirective occurrence.lines
  | number, .closing directive => by
    simpa [Branches.occurrences] using hdirective directive "endif" (by decide)
  | number, .branch fallback directive body others => by
    rw [Branches.occurrences, List.forall_mem_cons, List.forall_mem_append, List.forall_mem_map]
    exact ⟨hdirective directive _ (DirectiveLine.isWord_branchKeyword fallback),
      body.forall_occurrence hlines hdirective, others.forall_occurrence hlines hdirective guards (number + 1)⟩

end

theorem Tree.unbroken_occurrence (tree : Tree) :
    ∀ occurrence ∈ tree.occurrences, ∀ line ∈ occurrence.lines, Text.Unbroken line := by
  refine tree.forall_occurrence (P := fun _ lines => ∀ line ∈ lines, Text.Unbroken line) ?_ ?_
  · intro lines text hmem
    obtain ⟨line, -, rfl⟩ := List.mem_map.mp hmem
    exact line.unbroken
  · intro directive keyword h line hmem
    obtain rfl := List.mem_singleton.mp hmem
    exact directive.unbroken_text h

theorem Tree.read_directive (tree : Tree) : ∀ occurrence ∈ tree.occurrences,
    occurrence.isDirective = true → Lexer.read occurrence.text = (linesTrivia occurrence.lines, none) := by
  refine tree.forall_occurrence (P := fun isDirective lines =>
    isDirective = true → Lexer.read (Text.unlines lines) = (linesTrivia lines, none)) ?_ ?_
  · intro lines h
    exact absurd h (by simp)
  · intro directive keyword h _
    simpa [linesTrivia] using directive.read_text h

private theorem run_plain_lines {lines : List Text}
    (h : ∀ line ∈ lines, Text.Unbroken line ∧ isPlain line = true) :
    Lexer.Run {} (Text.unlines lines) (linesTrivia lines) {} [] := by
  induction lines with
  | nil => exact .stay _ _
  | cons line lines ih =>
    obtain ⟨⟨hunbroken, hplain⟩, hlines⟩ := List.forall_mem_cons.mp h
    rw [Text.unlines_cons, linesTrivia, List.flatMap_cons]
    exact (run_plain hunbroken hplain [] _).append (ih hlines)

theorem kind_of_mem_linesTrivia {lines : List Text} {piece : Trivia} (h : piece ∈ linesTrivia lines) :
    piece.kind ∈ [.whitespace, .directive, .lineComment, .lineDocComment, .endOfLine] := by
  obtain ⟨line, -, hpiece⟩ := List.mem_flatMap.mp h
  rw [lineTrivia, List.mem_append, List.mem_append, List.mem_singleton] at hpiece
  rcases hpiece with (hpiece | hpiece) | rfl
  · unfold optionalPiece at hpiece
    split at hpiece
    · simp at hpiece
    · simp [List.mem_singleton.mp hpiece]
  · split at hpiece
    · simp at hpiece
    · simp [List.mem_singleton.mp hpiece]
    · rw [List.mem_singleton.mp hpiece, commentKind]
      split <;> simp
  · simp [feed]

private theorem isClosed_of_mem_linesTrivia {lines : List Text} {piece : Trivia} (h : piece ∈ linesTrivia lines) :
    Lexer.IsClosed piece := by
  intro hblock
  have hkind := kind_of_mem_linesTrivia h
  simp only [Trivia.isOneOf, List.contains_iff_mem, List.mem_cons, List.not_mem_nil, or_false] at hblock hkind
  rcases hblock with hblock | hblock
  all_goals simp [hblock] at hkind

private theorem isConditional_of_isPlain {line : Text} (h : isPlain line = true) : isConditional line = false := by
  unfold isPlain at h
  split at h
  · next hnil => simp [isConditional, hnil]
  · simpa using h
  · next hrest => simp [isConditional, hrest]
  · exact absurd h (by simp)

/-- If the live lines are read one by one, the reading is put together from their trivia. -/
theorem glue_eq_assemble {marks : List MarkedLines}
    (h : ∀ mark ∈ marks, mark.dead = false →
      Lexer.read (Text.unlines mark.lines) = (linesTrivia mark.lines, none))
    (pending : Text) : glue pending marks = (assemble pending marks, none) := by
  induction marks generalizing pending with
  | nil => rfl
  | cons mark marks ih =>
    obtain ⟨hmark, hmarks⟩ := List.forall_mem_cons.mp h
    obtain ⟨dead, lines⟩ := mark
    cases dead with
    | true => rw [glue, assemble, ih hmarks]
    | false =>
      rw [glue, assemble, ih hmarks, hmark rfl]
      simp [Reading.andThen]

namespace Tree
variable {tree : Tree}

/-- The live lines of such a tree are read one by one. -/
theorem Regular.read_live (h : tree.Regular) : ∀ occurrence ∈ tree.occurrences,
    occurrence.isDead = false → Lexer.read occurrence.text = (linesTrivia occurrence.lines, none) := by
  intro occurrence hmem hlive
  cases hdirective : occurrence.isDirective with
  | true => exact tree.read_directive occurrence hmem hdirective
  | false =>
    have hplain : ∀ line ∈ occurrence.lines, Text.Unbroken line ∧ isPlain line = true := by
      intro line hline
      have hplain := h occurrence hmem hdirective line hline
      rw [hlive, if_neg (by simp)] at hplain
      exact ⟨tree.unbroken_occurrence occurrence hmem line hline, hplain⟩
    have hread := (run_plain_lines hplain).readOn_eq
    rwa [Lexer.readOn_nil, Reading.andThen_nil] at hread

/-- No token comes before an item of such a tree. -/
theorem Regular.read_before (h : tree.Regular) {before after : List Occurrence} {occurrence : Occurrence}
    (hoccurrences : tree.occurrences = before ++ occurrence :: after) :
    ∀ earlier ∈ before, earlier.isDead = false → (Lexer.read earlier.text).2 = none := by
  intro earlier hmem hlive
  rw [h.read_live earlier (hoccurrences ▸ List.mem_append_left _ hmem) hlive]

theorem Regular.legible (h : tree.Regular) : Legible tree.occurrences := by
  intro occurrence hmem hdirective
  refine ⟨fun line hline => ?_, fun hlive => ?_⟩
  · have hregular := h occurrence hmem hdirective line hline
    split at hregular
    · exact hregular
    · exact isConditional_of_isPlain hregular
  · rw [h.read_live occurrence hmem hlive]
    exact fun piece => isClosed_of_mem_linesTrivia

theorem Regular.read_render (h : tree.Regular) : Lexer.read tree.render = (tree.trivia, none) := by
  rw [tree.read_render h.legible, trivia]
  refine glue_eq_assemble ?_ []
  simpa [Occurrence.mark, Occurrence.text] using h.read_live

/-- The text of such a tree does not begin with a byte-order mark, which would begin a token. -/
theorem Regular.withoutMark_render (h : tree.Regular) : withoutMark tree.render = tree.render := by
  refine withoutMark_of_head? ?_
  rintro c hc rfl
  have hread := h.read_render
  cases htext : tree.render with
  | nil => simp [htext] at hc
  | cons first rest =>
    obtain rfl : first = byteOrderMark := by simpa [htext] using hc
    have htoken : Lexer.readTrivia {} byteOrderMark rest = none := by
      rw [Lexer.readTrivia_of_not_isBlank (by decide)]
      simp [byteOrderMark]
    rw [htext] at hread
    exact absurd ((Lexer.readOn_token htoken).symm.trans hread) (by simp)

end Tree

end Conditional

/-- A text made of a conditional tree holds no token, and its trivia are those that the tree calls for:
the pieces of every live line, and one piece of disabled text for every run of dead lines. -/
theorem SourceUnit.ofText_render (tree : Conditional.Tree) (path : Option Text) (h : tree.Regular) :
    let unit := SourceUnit.ofText tree.render path
    unit.firstToken = none ∧ unit.endOfFile.leadingTrivia = tree.trivia := by
  simp only [SourceUnit.ofText, h.withoutMark_render, h.read_render, and_self]

/-- Dead and live branches, and what stands in them. -/
theorem SourceUnit.ofText_render_nestedGroups : Conditional.nestedGroups.Regular ∧
    (SourceUnit.ofText Conditional.nestedGroups.render).firstToken = none ∧
    (SourceUnit.ofText Conditional.nestedGroups.render).endOfFile.leadingTrivia =
      [⟨.directive, "#if false".toList⟩, Conditional.feed,
        ⟨.disabledText, "# if HOST\ntoken /* open\n#else\n#endif\n".toList⟩,
        ⟨.whitespace, [' ']⟩, ⟨.directive, "#elif true // chosen".toList⟩, Conditional.feed,
        ⟨.whitespace, ['\t']⟩, ⟨.lineDocComment, "/// live".toList⟩, Conditional.feed,
        ⟨.directive, "#if HOST && false".toList⟩, Conditional.feed,
        ⟨.directive, "#region".toList⟩, Conditional.feed,
        ⟨.directive, "#else".toList⟩, Conditional.feed, Conditional.feed,
        ⟨.directive, "#endif".toList⟩, Conditional.feed,
        ⟨.directive, "#elif HOST".toList⟩, Conditional.feed,
        ⟨.disabledText, "dead\n#else\ndead too\n".toList⟩,
        ⟨.directive, "#endif".toList⟩, Conditional.feed,
        ⟨.lineComment, "//// live".toList⟩, Conditional.feed] := by
  have hregular : Conditional.nestedGroups.Regular := by decide
  obtain ⟨htoken, htrivia⟩ := SourceUnit.ofText_render Conditional.nestedGroups none hregular
  refine ⟨hregular, htoken, htrivia.trans ?_⟩
  decide

end SourceOrigin
