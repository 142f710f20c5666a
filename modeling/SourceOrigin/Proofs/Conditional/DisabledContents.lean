import SourceOrigin.Proofs.Classification
import SourceOrigin.Proofs.Conditional.Balance
import SourceOrigin.Proofs.Lexer.Extension
import SourceOrigin.Proofs.Lexer.FirstToken

/-! The contents of a disabled branch have no influence on anything but the disabled text itself. Where balanced lines stand
between the opening of a branch that fails and the directive that ends it, all other trivia, the first token and every
classification are the same whatever the lines hold. -/
namespace SourceOrigin

namespace Conditional
variable {body rest skipped left : Text}

def endings : List Text := ["endif", "else", "elif"].map (·.toList)

private theorem ne_nil_of_ending (h : ∃ word ∈ endings, keyword? (Text.lineAt rest) = some word) : rest ≠ [] := by
  rintro rfl
  obtain ⟨word, -, hword⟩ := h
  simp [keyword?] at hword

private theorem cleanCut_of_ending (h : ∃ word ∈ endings, keyword? (Text.lineAt rest) = some word) (front : Text) :
    Text.CleanCut front rest := by
  intro _ hhead
  obtain ⟨rest, rfl⟩ := List.head?_eq_some_iff.mp hhead
  obtain ⟨word, -, hword⟩ := h
  simp [keyword?, Text.isBreak] at hword

/-- Lines that are disabled up to the next alternative end in front of it. -/
theorem skips_balanced (hbody : IsBalanced body) (hrest : ∃ word ∈ endings, keyword? (Text.lineAt rest) = some word) :
    Skips true 0 (body ++ rest) body rest := by
  have hstop : Directive.depthBehind? true 0 (Directive.ofLine? (Text.lineAt rest)) = none := by
    obtain ⟨word, hword, hline⟩ := hrest
    rw [depthBehind?_ofLine?, hline]
    simp only [endings, List.map_cons, List.map_nil, List.mem_cons, List.not_mem_nil, or_false] at hword
    rcases hword with rfl | rfl | rfl
    all_goals decide
  obtain ⟨lines, hlines, hbalanced⟩ := hbody
  have hskips := Skips.passes hlines hbalanced (cleanCut_of_ending hrest body)
    (.stops (ne_nil_of_ending hrest) hstop)
  rwa [List.append_nil] at hskips

/-- Among lines that are disabled already, a group with balanced lines is skipped up to the directive that ends it. -/
theorem skips_nested {toAlternative : Bool} (hbody : IsBalanced body) (hcut : Text.CleanCut body rest)
    (h : Skips toAlternative 1 rest skipped left) :
    Skips toAlternative 0 ("#if false".toList ++ (['\n'] ++ (body ++ rest)))
      ("#if false".toList ++ (['\n'] ++ (body ++ skipped))) left := by
  have hnext : Directive.depthBehind? toAlternative 0 (Directive.ofLine? "#if false".toList) = some 1 := by
    rw [depthBehind?_ofLine?, if_pos (by decide +kernel)]
  obtain ⟨lines, hlines, hbalanced⟩ := hbody
  have hfeed : Text.CleanCut ['\n'] (body ++ rest) := Text.cleanCut_of_getLast (by simp) _
  exact .cons_line (by decide) (by decide) hfeed hnext (.passes hlines hbalanced hcut h)

end Conditional

namespace Lexer
variable {state last : State} {front body rest : Text} {pieces : List Trivia}

/-- At the start of a line a branch that fails is read as its directive, the line break and the disabled lines. -/
theorem run_disabled_body (hstart : state.atLineStart = true) (hbody : Conditional.IsBalanced body)
    (hrest : ∃ word ∈ Conditional.endings, Conditional.keyword? (Text.lineAt rest) = some word) :
    Run state ("#if false".toList ++ (['\n'] ++ (body ++ rest)))
      ([⟨.directive, "#if false".toList⟩, ⟨.endOfLine, ['\n']⟩] ++ Conditional.optionalPiece .disabledText body)
      { state with conditionals := .fails :: state.conditionals } rest := by
  have hhead : ∀ c ∈ (['\n'] ++ (body ++ rest)).head?, Text.isBreak c = true := by simp [Text.isBreak]
  have hskips := Conditional.skips_balanced hbody hrest
  have htrack : Directive.track (Directive.ofText "if false".toList) state.conditionals =
      (.fails :: state.conditionals, .disabled true) := by
    have hdirective : Directive.ofText "if false".toList = .opening .fails := by decide +kernel
    rw [hdirective]
    rfl
  rw [← Text.afterBreak_feed (body ++ rest)] at hskips
  have hrun := (Reads.disabling hstart (by decide) hhead htrack hskips).run
  rwa [List.singleton_append, Text.breakAt_feed] at hrun

private theorem read_disabled (hrun : Run {} front pieces last [])
    (hend : ∀ piece ∈ pieces.getLast?, piece.kind = .endOfLine)
    (hrest : ∃ word ∈ Conditional.endings, Conditional.keyword? (Text.lineAt rest) = some word) :
    ∃ before behind token, ∀ body, Conditional.IsBalanced body → ∃ hidden,
      read (front ++ ("#if false".toList ++ (['\n'] ++ (body ++ rest)))) =
        (before ++ Conditional.optionalPiece .disabledText hidden ++ behind, token) ∧
      (before ++ Conditional.optionalPiece .disabledText hidden).all (·.isLayout) = false := by
  have hcut : ∀ body, Text.CleanCut front ("#if false".toList ++ (['\n'] ++ (body ++ rest))) := by
    intro body _
    simp
  obtain ⟨hstart, hgoesOn⟩ := hrun.goesOn hend rfl
  cases hgoesOn with
  | live h =>
    obtain ⟨behind, token, hbehind⟩ : ∃ behind token,
      readOn { last with conditionals := .fails :: last.conditionals } rest = (behind, token) := ⟨_, _, rfl⟩
    refine ⟨pieces ++ [⟨.directive, "#if false".toList⟩, ⟨.endOfLine, ['\n']⟩], behind, token, fun body hbody =>
      ⟨body, ?_, by simp [Trivia.isLayout, Trivia.isOneOf]⟩⟩
    have hread := ((h _ (hcut body)).append (run_disabled_body hstart hbody hrest)).readOn_eq
    rw [hbehind] at hread
    exact hread.trans (by simp [Reading.andThen])
  | pending toAlternative _ h =>
    obtain ⟨skipped, left, hskips⟩ := exists_skips toAlternative 1 rest
    obtain ⟨behind, token, hbehind⟩ : ∃ behind token, readOn last left = (behind, token) := ⟨_, _, rfl⟩
    refine ⟨pieces, behind, token, fun body hbody => ?_⟩
    have hnested := Conditional.skips_nested hbody (Conditional.cleanCut_of_ending hrest body) hskips
    have hread := (h _ _ _ (hcut body) hnested).readOn_eq
    rw [hbehind] at hread
    exact ⟨_, hread, by simp [Conditional.optionalPiece, Trivia.isLayout, Trivia.isOneOf]⟩

end Lexer

def Token.visible (token : Token) : Token :=
  { token with leadingTrivia := token.leadingTrivia.filter (·.kind ≠ .disabledText) }

/-- Two pieces of disabled text make no difference to what is visible and to the signs that the heuristics look for, if not
all trivia are layout with either of them. -/
theorem SourceUnit.ofText_hidden {text text' hidden hidden' : Text} {before behind : List Trivia} {token : Option Text}
    (h : Lexer.read (withoutMark text) = (before ++ Conditional.optionalPiece .disabledText hidden ++ behind, token))
    (h' : Lexer.read (withoutMark text') = (before ++ Conditional.optionalPiece .disabledText hidden' ++ behind, token))
    (hlayout : (before ++ Conditional.optionalPiece .disabledText hidden).all (·.isLayout) = false)
    (hlayout' : (before ++ Conditional.optionalPiece .disabledText hidden').all (·.isLayout) = false) (path : Option Text) :
    (ofText text path).firstToken.map Token.visible = (ofText text' path).firstToken.map Token.visible ∧
      (ofText text path).endOfFile.visible = (ofText text' path).endOfFile.visible ∧
      ∀ config token, classify config (ofText text path).tree token = classify config (ofText text' path).tree token := by
  have hvisible : ∀ hidden, (before ++ Conditional.optionalPiece .disabledText hidden ++ behind).filter
      (fun piece => decide (piece.kind ≠ .disabledText)) = (before ++ behind).filter (·.kind ≠ .disabledText) := by
    intro hidden
    unfold Conditional.optionalPiece
    split <;> simp
  have hmarks : ∀ (config : Config) hidden, (before ++ Conditional.optionalPiece .disabledText hidden ++ behind).any
      config.marks = (before ++ behind).any config.marks := by
    intro config hidden
    unfold Conditional.optionalPiece
    split <;> simp [Config.marks, Trivia.isPlainComment, Trivia.isOneOf]
  have hnot : ∀ hidden, (before ++ Conditional.optionalPiece .disabledText hidden).all (·.isLayout) = false →
      (before ++ Conditional.optionalPiece .disabledText hidden ++ behind).all (·.isLayout) = false := by
    intro hidden hall
    rw [List.all_append, hall, Bool.false_and]
  cases token with
  | none =>
    rw [ofText_of_read_none h, ofText_of_read_none h']
    refine ⟨rfl, ?_, fun config token => SourceUnit.classify_congr (by rfl) (by rfl) ?_ ?_ token⟩
    · simp only [Token.visible, hvisible]
    · exact (hmarks config hidden).trans (hmarks config hidden').symm
    · exact (hnot hidden hlayout).trans (hnot hidden' hlayout').symm
  | some token =>
    rw [ofText_of_read_some h, ofText_of_read_some h']
    refine ⟨?_, rfl, fun config token => SourceUnit.classify_congr (by rfl) (by rfl) ?_ ?_ token⟩
    · simp only [Option.map_some, Token.visible, hvisible]
    · exact (hmarks config hidden).trans (hmarks config hidden').symm
    · exact (hnot hidden hlayout).trans (hnot hidden' hlayout').symm

/-- Whatever balanced lines a branch under a false condition holds, the first token and all trivia but the disabled text are
the same, and every classification is, if the text before it ends with a line break, or is empty, and holds no token. -/
theorem SourceUnit.ofText_disabled {front body body' rest : Text} (hfront : (ofText front).firstToken = none)
    (hend : ∀ piece ∈ (ofText front).endOfFile.leadingTrivia.getLast?, piece.kind = .endOfLine)
    (hbody : Conditional.IsBalanced body) (hbody' : Conditional.IsBalanced body')
    (hrest : ∃ word ∈ Conditional.endings, Conditional.keyword? (Text.lineAt rest) = some word) (path : Option Text) :
    let unit := ofText (front ++ "#if false\n".toList ++ body ++ rest) path
    let unit' := ofText (front ++ "#if false\n".toList ++ body' ++ rest) path
    unit.firstToken.map Token.visible = unit'.firstToken.map Token.visible ∧
      unit.endOfFile.visible = unit'.endOfFile.visible ∧
      ∀ config token, classify config unit.tree token = classify config unit'.tree token := by
  have hmark : ∀ body, withoutMark (front ++ "#if false\n".toList ++ body ++ rest) =
      withoutMark front ++ ("#if false".toList ++ (['\n'] ++ (body ++ rest))) := by
    intro body
    rw [List.append_assoc, List.append_assoc]
    cases front with
    | nil => exact withoutMark_of_head? (by simp [byteOrderMark])
    | cons c front =>
      rw [List.cons_append, withoutMark, withoutMark]
      split <;> rfl
  cases hread : Lexer.read (withoutMark front) with
  | mk pieces token =>
    cases token with
    | some token =>
      rw [ofText_of_read_some hread] at hfront
      simp at hfront
    | none =>
      rw [ofText_of_read_none hread] at hend
      obtain ⟨last, left, hrun, hstop⟩ := Lexer.exists_run {} (withoutMark front)
      have hreadOn : Lexer.readOn {} (withoutMark front) = (pieces, none) := hread
      rw [hreadOn] at hrun hstop
      obtain rfl := hstop.left_eq_nil
      obtain ⟨before, behind, token, hbodies⟩ := Lexer.read_disabled hrun hend hrest
      obtain ⟨hidden, hwhole, hlayout⟩ := hbodies body hbody
      obtain ⟨hidden', hwhole', hlayout'⟩ := hbodies body' hbody'
      rw [← hmark] at hwhole hwhole'
      exact ofText_hidden hwhole hwhole' hlayout hlayout' path

/-- A comment opener, a nested group and a marked comment in one body, and a token in the other. -/
theorem SourceUnit.ofText_disabled_marker :
    let front := "#if a\n// b\r\n".toList
    let body := "/*\n #if c\n#else\n// <auto-generated>\n#endif\n".toList
    let body' := "class D\r\n".toList
    let rest := "\t#elif e\nclass F".toList
    (ofText front).firstToken = none ∧
      (∀ piece ∈ (ofText front).endOfFile.leadingTrivia.getLast?, piece.kind = .endOfLine) ∧
      Conditional.IsBalanced body ∧ Conditional.IsBalanced body' ∧
      (∃ word ∈ Conditional.endings, Conditional.keyword? (Text.lineAt rest) = some word) ∧
      let unit := ofText (front ++ "#if false\n".toList ++ body ++ rest)
      let unit' := ofText (front ++ "#if false\n".toList ++ body' ++ rest)
      unit.firstToken.map Token.visible = unit'.firstToken.map Token.visible ∧
        unit.endOfFile.visible = unit'.endOfFile.visible ∧
        ∀ config token, classify config unit.tree token = classify config unit'.tree token := by
  intro front body body' rest
  have hfront : (ofText front).firstToken = none := by decide +kernel
  have hend : ∀ piece ∈ (ofText front).endOfFile.leadingTrivia.getLast?, piece.kind = .endOfLine := by
    have hlast : (ofText front).endOfFile.leadingTrivia.getLast? = some ⟨.endOfLine, ['\r', '\n']⟩ := by decide +kernel
    rw [hlast]
    rintro piece ⟨⟩
    rfl
  have hbody : Conditional.IsBalanced body := by
    refine ⟨["/*".toList, " #if c".toList, "#else".toList, "// <auto-generated>".toList, "#endif".toList], ?_,
      by decide +kernel⟩
    exact .cons (by decide) (show ['\n'] ∈ Text.breakForms by decide) (by decide) <|
      .cons (by decide) (show ['\n'] ∈ Text.breakForms by decide) (by decide) <|
      .cons (by decide) (show ['\n'] ∈ Text.breakForms by decide) (by decide) <|
      .cons (by decide) (show ['\n'] ∈ Text.breakForms by decide) (by decide) <|
      .cons (by decide) (show ['\n'] ∈ Text.breakForms by decide) (by decide) .nil
  have hbody' : Conditional.IsBalanced body' := by
    refine ⟨["class D".toList], ?_, by decide +kernel⟩
    exact .cons (by decide) (show ['\r', '\n'] ∈ Text.breakForms by decide) (by decide) .nil
  have hrest : ∃ word ∈ Conditional.endings, Conditional.keyword? (Text.lineAt rest) = some word :=
    ⟨"elif".toList, by decide, by decide +kernel⟩
  exact ⟨hfront, hend, hbody, hbody', hrest, ofText_disabled hfront hend hbody hbody' hrest none⟩

end SourceOrigin
