import SourceOrigin.Proofs.Conditional.LineReading

/-! How the lexer reads the blanks in front of a line, a line that holds at most one piece behind them, and a
directive with the lines that it disables. -/
namespace SourceOrigin.Conditional
open Lexer (Run Reading readOn)
variable {conditionals : List Condition}

theorem run_indent {indent text : Text} (h : Text.Inline indent)
    (hhead : ∀ c ∈ text.head?, Text.isInlineBlank c = false) (state : Lexer.State) :
    Run state (indent ++ text) (optionalPiece .whitespace indent) state text := by
  cases indent with
  | nil => exact .stay state text
  | cons first indent =>
    have hstop : text.takeWhile Text.isInlineBlank = [] ∧ text.dropWhile Text.isInlineBlank = text := by
      cases text with
      | nil => simp
      | cons c text => simp [hhead c rfl]
    have hstep := Lexer.readTrivia_of_isInlineBlank (h first (by simp)) state (indent ++ text)
    rw [← List.cons_append, List.takeWhile_append_of_pos h, List.dropWhile_append_of_pos h, hstop.1, hstop.2,
      List.append_nil] at hstep
    exact .single hstep

/-- A line is read as its blanks, then what is read behind them. -/
private theorem run_line {line : Text} (hline : Text.Unbroken line) {state : Lexer.State} {rest : Text}
    {pieces : List Trivia} (h : Run state (line.dropWhile Text.isBlank ++ '\n' :: rest) pieces state ('\n' :: rest)) :
    Run state (line ++ '\n' :: rest)
      (optionalPiece .whitespace (line.takeWhile Text.isBlank) ++ (pieces ++ [feed]))
      ⟨true, state.conditionals⟩ rest := by
  have hindent : Text.Inline (line.takeWhile Text.isBlank) := by
    intro c hc
    have hblank : Text.isBlank c = true := List.mem_takeWhile_imp hc
    simp [Text.isInlineBlank, hblank, hline c (List.takeWhile_prefix _ |>.mem hc)]
  have hhead : ∀ c ∈ (line.dropWhile Text.isBlank ++ '\n' :: rest).head?, Text.isInlineBlank c = false := by
    intro c hc
    have hstop := List.head?_dropWhile_not Text.isBlank line
    cases hcontent : line.dropWhile Text.isBlank with
    | nil =>
      obtain rfl : '\n' = c := by simpa [hcontent] using hc
      decide
    | cons first more =>
      obtain rfl : first = c := by simpa [hcontent] using hc
      simp_all [Text.isInlineBlank]
  have hrun := run_indent hindent hhead state
  rw [← List.append_assoc, List.takeWhile_append_dropWhile] at hrun
  exact hrun.append (h.append (.single (Lexer.readTrivia_feed state rest)))

/-- Behind its blanks a plain line is read as one piece, or as none. -/
theorem run_plain {line : Text} (hline : Text.Unbroken line) (h : isPlain line = true)
    (conditionals : List Condition) (rest : Text) :
    Run ⟨true, conditionals⟩ (line ++ '\n' :: rest) (lineTrivia line ++ [feed]) ⟨true, conditionals⟩ rest := by
  have hcontent : Text.Unbroken (line.dropWhile Text.isBlank) :=
    fun c hc => hline c (List.dropWhile_suffix _ |>.mem hc)
  rw [lineTrivia, List.append_assoc]
  refine run_line hline ?_
  unfold isPlain at h
  split at h
  · next hnil =>
    rw [hnil]
    exact .stay _ _
  · next more hmore =>
    rw [hmore] at hcontent ⊢
    have hother : isConditional ('#' :: more) = false := by
      simp_all [isConditional, show Text.isBlank '#' = false by decide]
    have hread : Lexer.readTrivia ⟨true, conditionals⟩ '#' (more ++ '\n' :: rest) =
        some ⟨[⟨.directive, '#' :: more⟩], '\n' :: rest, ⟨true, conditionals⟩⟩ := by
      rw [Lexer.readTrivia_of_not_isBlank (by decide), ← List.cons_append,
        Lexer.readDirective_other hcontent (Lexer.ofText_eq_other hother)]
      rfl
    exact .single hread
  · next more hmore =>
    rw [hmore] at hcontent ⊢
    have hread : Lexer.readTrivia ⟨true, conditionals⟩ '/' ('/' :: more ++ '\n' :: rest) =
        some ⟨[⟨commentKind ('/' :: '/' :: more), '/' :: '/' :: more⟩], '\n' :: rest, ⟨true, conditionals⟩⟩ := by
      rw [Lexer.readTrivia_of_not_isBlank (by decide), ← List.cons_append,
        Lexer.readLineComment_line hcontent]
      rfl
    exact .single hread
  · exact absurd h (by simp)

namespace DirectiveLine
variable (directive : DirectiveLine) {keyword : String} {stack stack' : List Condition}

private theorem lineTrivia_text : lineTrivia (directive.text keyword) =
    optionalPiece .whitespace directive.indent ++ [⟨.directive, '#' :: directive.content keyword⟩] := by
  have hblank : ∀ c ∈ directive.indent, Text.isBlank c = true :=
    fun c hc => Text.isBlank_of_isInlineBlank (directive.indent_inline c hc)
  rw [lineTrivia, text, List.takeWhile_append_of_pos hblank, List.dropWhile_append_of_pos hblank]
  simp [show Text.isBlank '#' = false by decide]

/-- The lexer comes to the number sign, and reads the directive from there. -/
private theorem run_text (keyword : String) (stack : List Condition) (rest : Text) :
    Run ⟨true, stack⟩ (directive.text keyword ++ rest)
      (optionalPiece .whitespace directive.indent ++
        (Lexer.readDirective ⟨true, stack⟩ ('#' :: directive.content keyword ++ rest)).pieces)
      (Lexer.readDirective ⟨true, stack⟩ ('#' :: directive.content keyword ++ rest)).state
      (Lexer.readDirective ⟨true, stack⟩ ('#' :: directive.content keyword ++ rest)).rest := by
  have hhead : ∀ c ∈ ('#' :: (directive.content keyword ++ rest)).head?, Text.isInlineBlank c = false := by
    simp only [List.head?_cons, Option.mem_some_iff, forall_eq']
    decide
  rw [text, List.append_assoc]
  refine (run_indent directive.indent_inline hhead _).append (.single ?_)
  rw [Lexer.readTrivia_of_not_isBlank (by decide)]
  simp

private theorem unbroken_content (h : IsWord keyword) :
    Text.Unbroken ('#' :: directive.content keyword) :=
  fun c hc => directive.unbroken_text h c (by rw [text]; exact List.mem_append_right _ hc)

/-- A directive behind which the lines are live. -/
theorem run_live (h : IsWord keyword)
    (htrack : Directive.track (Directive.ofText (directive.content keyword)) stack = (stack', .live))
    (rest : Text) :
    Run ⟨true, stack⟩ (directive.text keyword ++ '\n' :: rest)
      (lineTrivia (directive.text keyword) ++ [feed]) ⟨true, stack'⟩ rest := by
  have hrun := directive.run_text keyword stack ('\n' :: rest)
  rw [Lexer.readDirective_line (directive.unbroken_content h), htrack] at hrun
  rw [lineTrivia_text]
  exact hrun.append (.single (Lexer.readTrivia_feed _ rest))

/-- A directive behind which lines are disabled takes them along. -/
theorem run_disabled (h : IsWord keyword) {toAlternative : Bool} {length : Nat} {rest : Text}
    (htrack : Directive.track (Directive.ofText (directive.content keyword)) stack =
      (stack', .disabled toAlternative)) (hlength : disabledLength toAlternative 0 0 rest = length) :
    Run ⟨true, stack⟩ (directive.text keyword ++ '\n' :: rest)
      (lineTrivia (directive.text keyword) ++ feed :: optionalPiece .disabledText (rest.take length))
      ⟨true, stack'⟩ (rest.drop length) := by
  have hrun := directive.run_text keyword stack ('\n' :: rest)
  rw [Lexer.readDirective_line (directive.unbroken_content h), htrack] at hrun
  rw [lineTrivia_text]
  simp only [Lexer.readDisabled, Text.breakAt_feed, Text.afterBreak_feed, hlength] at hrun
  have hnil : rest.take length = [] ↔ length = 0 := by
    rw [List.take_eq_nil_iff, or_iff_left_iff_imp]
    rintro rfl
    rw [← hlength, disabledLength]
  have hpieces : (if length = 0 then [] else [⟨.disabledText, rest.take length⟩]) =
      optionalPiece .disabledText (rest.take length) := by
    simp only [optionalPiece, hnil]
  simpa [hpieces, feed] using hrun

/-- With nothing behind it a directive is read as a line of its own. -/
theorem read_text (h : IsWord keyword) :
    Lexer.read (directive.text keyword ++ ['\n']) = (lineTrivia (directive.text keyword) ++ [feed], none) := by
  cases htrack : Directive.track (Directive.ofText (directive.content keyword)) [] with
  | mk stack continuation =>
    cases continuation with
    | live =>
      have hread := (directive.run_live h htrack []).readOn_eq
      rwa [Lexer.readOn_nil, Reading.andThen_nil] at hread
    | disabled toAlternative =>
      have hlength : disabledLength toAlternative 0 0 [] = 0 := by rw [disabledLength]
      have hread := (directive.run_disabled h htrack hlength).readOn_eq
      rwa [List.take_nil, List.drop_nil, Lexer.readOn_nil, Reading.andThen_nil] at hread

end DirectiveLine

end SourceOrigin.Conditional
