import SourceOrigin.Proofs.Conditional.Respelling
import SourceOrigin.Proofs.Lexer.FirstToken

/-! The spelling of conditional directives. A keyword counts only if a blank or the end of the line follows it: a space put
behind it changes nothing then, and otherwise it makes a directive of a line that was none. -/
namespace SourceOrigin

/-- Two lines may take each other's place: whatever lines stand before them and whatever follows, the same characters of the
other lines are hidden. -/
def Interchangeable (line line' : Text) : Prop :=
  ∀ (before after text text' : Text) (path : Option Text), before.Complete → (∀ c ∈ after.head?, Text.isBreak c = true) →
    withoutMark text = before ++ (line ++ after) → withoutMark text' = before ++ (line' ++ after) →
    (∀ position < before.length,
      (SourceUnit.ofText text path).Hides position ↔ (SourceUnit.ofText text' path).Hides position) ∧
    ∀ position,
      (SourceUnit.ofText text path).Hides (before.length + line.length + (Text.breakAt after).length + position) ↔
        (SourceUnit.ofText text' path).Hides (before.length + line'.length + (Text.breakAt after).length + position)

private theorem SourceUnit.hides_iff (text : Text) (path : Option Text) (position : Nat) :
    (ofText text path).Hides position ↔ (disabledMask (Lexer.readOn {} (withoutMark text)).1)[position]? = some true := by
  cases hread : Lexer.readOn {} (withoutMark text) with
  | mk trivia token =>
    cases token with
    | none =>
      rw [ofText_of_read_none hread]
      rfl
    | some token =>
      rw [ofText_of_read_some hread]
      rfl

/-- Two spellings of one directive are interchangeable. -/
theorem Respelling.interchangeable (r : Respelling) : Interchangeable r.line r.respelt := by
  intro before after text text' path hbefore hafter htext htext'
  have hagree := r.agreeAround hbefore (fun _ => rfl : before = [] → ({} : Lexer.State).atLineStart = true) hafter
  rw [← htext, ← htext'] at hagree
  simp only [SourceUnit.hides_iff]
  refine ⟨fun position hposition => ?_, fun position => ?_⟩
  · rw [← List.getElem?_take_of_lt hposition, hagree.before, List.getElem?_take_of_lt hposition]
  · rw [Nat.add_assoc, Nat.add_assoc (before.length + r.respelt.length), ← List.getElem?_drop, hagree.behind,
      List.getElem?_drop]

private theorem Skips.cons_feed {toAlternative : Bool} {depth next : Nat} {line rest skipped left : Text}
    (h : Skips toAlternative next rest skipped left) (hline : line.Unbroken)
    (hnext : Directive.depthBehind? toAlternative depth (Directive.ofLine? line) = some next) :
    Skips toAlternative depth (line ++ '\n' :: rest) (line ++ '\n' :: skipped) left :=
  .cons_line hline (show ['\n'] ∈ Text.breakForms by decide) (Text.cleanCut_of_getLast (by simp) rest) hnext h

/-- The line behind two interchangeable ones is hidden or not alike. -/
theorem Interchangeable.hides_behind {opening line line' : Text} (h : Interchangeable line line')
    (hsign : opening.head? = some '#') (hopening : opening.Complete) (after : Text) :
    (SourceUnit.ofText (opening ++ (line ++ '\n' :: after))).Hides (opening.length + (line.length + 1)) ↔
      (SourceUnit.ofText (opening ++ (line' ++ '\n' :: after))).Hides (opening.length + (line'.length + 1)) := by
  have hmark : ∀ rest, withoutMark (opening ++ rest) = opening ++ rest := by
    intro rest
    apply withoutMark_of_head?
    obtain ⟨opening, rfl⟩ := List.head?_eq_some_iff.mp hsign
    simp [byteOrderMark]
  have hbehind := (h opening ('\n' :: after) _ _ none hopening (by simp [Text.isBreak]) (hmark _) (hmark _)).2 0
  rwa [Text.breakAt_feed] at hbehind

section
open Lexer
variable {lines skipped left : Text}

private theorem getElem?_replicate_append (n k : Nat) (b : Bool) (mask : List Bool) :
    (List.replicate n b ++ mask)[n + k]? = mask[k]? := by
  rw [List.getElem?_append_right (by simp), List.length_replicate, Nat.add_sub_cancel_left]

private theorem hides_behindDirective {word : Text} (hword : word.Unbroken) (lines : Text) (position : Nat) :
    (SourceUnit.ofText ('#' :: word ++ ['\n'] ++ lines)).Hides (('#' :: word ++ ['\n']).length + position) ↔
      (disabledMask (readBehind {} (Directive.ofText word) ('\n' :: lines)).1)[position + 1]? = some true := by
  have htext : '#' :: word ++ ['\n'] ++ lines = '#' :: word ++ '\n' :: lines := by simp
  have hmark : withoutMark ('#' :: word ++ '\n' :: lines) = '#' :: word ++ '\n' :: lines :=
    withoutMark_of_head? (by simp [byteOrderMark])
  have hindex : ('#' :: word ++ ['\n']).length + position = ('#' :: word).length + (position + 1) := by
    rw [List.length_append, List.length_singleton, Nat.add_assoc, Nat.add_comm 1]
  rw [SourceUnit.hides_iff, htext, hmark, readOn_directive rfl hword (by simp [Text.isBreak]), disabledMask_andThen,
    disabledMask_piece, hindex, getElem?_replicate_append]

/-- Behind a condition that fails the skipped lines are hidden, and what is left is read with the conditional open. -/
theorem hides_behindFalse (h : Skips true 0 lines skipped left) (position : Nat) :
    (SourceUnit.ofText ("#if false\n".toList ++ lines)).Hides (10 + position) ↔
      (List.replicate skipped.length true ++ disabledMask (readOn ⟨true, [.fails]⟩ left).1)[position]? = some true := by
  have hdirective : Directive.ofText "if false".toList = .opening .fails := by decide +kernel
  have hread : readBehind {} (.opening .fails) ('\n' :: lines) = Reading.andThen ([Conditional.feed] ++
      Conditional.optionalPiece .disabledText skipped, none) (readOn ⟨true, [.fails]⟩ left) := by
    have hdisabled := @readDisabled_eq ('\n' :: lines) true skipped left (by rwa [Text.afterBreak_feed])
    simp only [readBehind, Directive.track, Directive.Continuation.ofCondition, hdisabled, Text.breakAt_feed]
    rfl
  have hbehind := hides_behindDirective (show Text.Unbroken "if false".toList by decide) lines position
  rw [hdirective, hread, disabledMask_andThen, disabledMask_append, Conditional.disabledMask_optionalPiece,
    List.append_assoc] at hbehind
  exact hbehind

/-- Behind a condition that holds the lines are read. -/
theorem hides_behindTrue (lines : Text) (position : Nat) :
    (SourceUnit.ofText ("#if true\n".toList ++ lines)).Hides (9 + position) ↔
      (disabledMask (readOn ⟨true, [.holds]⟩ lines).1)[position]? = some true := by
  have hdirective : Directive.ofText "if true".toList = .opening .holds := by decide +kernel
  have hread : readBehind {} (.opening .holds) ('\n' :: lines) =
      Reading.andThen ([Conditional.feed], none) (readOn ⟨true, [.holds]⟩ lines) :=
    (Run.single (readTrivia_feed ⟨true, [.holds]⟩ lines)).readOn_eq
  have hbehind := hides_behindDirective (show Text.Unbroken "if true".toList by decide) lines position
  rw [hdirective, hread, disabledMask_andThen] at hbehind
  exact hbehind

end

namespace Conditional

/-- A line with a keyword of conditional compilation right behind a number sign and blanks. Anything may follow the keyword. -/
structure KeywordLine where
  indent : Text
  gap : Text
  keyword : Text
  behind : Text
  indent_inline : indent.Inline
  gap_inline : gap.Inline
  isKeyword : keyword ∈ conditionalKeywords
  unbroken : behind.Unbroken

namespace KeywordLine
open Lexer
variable (line : KeywordLine)

def withWord (word : Text) : Text := line.indent ++ '#' :: (line.gap ++ word ++ line.behind)

abbrev written : Text := line.withWord line.keyword

abbrev spaced : Text := line.withWord (line.keyword ++ [' '])

def directive (word : Text) : Directive := Directive.ofText (line.gap ++ word ++ line.behind)

private theorem unbroken_append {word : Text} (h : word.Unbroken) : Text.Unbroken (line.gap ++ word ++ line.behind) := by
  intro c hc
  simp only [List.mem_append] at hc
  rcases hc with (hc | hc) | hc
  · exact line.gap_inline.unbroken c hc
  · exact h c hc
  · exact line.unbroken c hc

private theorem star_not_mem_gap : '*' ∉ line.gap := fun hmem => absurd (line.gap_inline '*' hmem) (by decide)

def respelling {word word' : Text} (hword : word.Unbroken) (hword' : word'.Unbroken) (hstar : '*' ∉ word) (hstar' : '*' ∉ word')
    (hsame : line.directive word = line.directive word') : Respelling where
  indent := line.indent
  first := line.gap ++ word
  second := line.gap ++ word'
  behind := line.behind
  indent_inline := line.indent_inline
  unbroken := line.unbroken_append hword
  unbroken' := line.unbroken_append hword'
  starless := by simp [line.star_not_mem_gap, hstar]
  starless' := by simp [line.star_not_mem_gap, hstar']
  sameDirective := hsame

private theorem interchangeable_withWord {word word' : Text} (hword : word.Unbroken) (hword' : word'.Unbroken)
    (hstar : '*' ∉ word)
    (hstar' : '*' ∉ word') (hsame : line.directive word = line.directive word') :
    Interchangeable (line.withWord word) (line.withWord word') :=
  (line.respelling hword hword' hstar hstar' hsame).interchangeable

private theorem keyword_cases : line.keyword = "if".toList ∨ line.keyword = "elif".toList ∨ line.keyword = "else".toList ∨
    line.keyword = "endif".toList := by
  simpa [conditionalKeywords] using line.isKeyword

private theorem isBlank_of_mem_gap : ∀ c ∈ line.gap, Text.isBlank c = true :=
  fun c hc => Text.isBlank_of_isInlineBlank (line.gap_inline c hc)

private theorem keyword_solid : line.keyword ≠ [] ∧ line.keyword.Solid := by
  rcases line.keyword_cases with h | h | h | h
  all_goals
    rw [h]
    decide

private theorem words_spaced : Text.firstWord (line.gap ++ (line.keyword ++ [' ']) ++ line.behind) = line.keyword ∧
    Text.afterWord (line.gap ++ (line.keyword ++ [' ']) ++ line.behind) = ' ' :: line.behind := by
  obtain ⟨hne, hsolid⟩ := line.keyword_solid
  have happart : Text.Apart (' ' :: line.behind) := by simp [Text.Apart, Text.isBlank]
  have hspaced : line.gap ++ (line.keyword ++ [' ']) ++ line.behind = line.gap ++ line.keyword ++ ' ' :: line.behind := by
    simp
  rw [hspaced]
  exact Text.firstWord_append line.isBlank_of_mem_gap hne hsolid happart

private theorem directive_spaced (h : line.behind.Apart) :
    line.directive (line.keyword ++ [' ']) = line.directive line.keyword := by
  obtain ⟨hne, hsolid⟩ := line.keyword_solid
  obtain ⟨hfirst, hafter⟩ := Text.firstWord_append line.isBlank_of_mem_gap hne hsolid h
  obtain ⟨hfirst', hafter'⟩ := line.words_spaced
  have hword : Text.firstWord (' ' :: line.behind) = Text.firstWord line.behind := by
    rw [Text.firstWord, Text.trimLeft, List.dropWhile_cons_of_pos (by decide)]
  rw [directive, directive]
  simp only [Directive.ofText, Condition.ofText, hfirst, hafter, hfirst', hafter', hword]

/-- With a space behind it a keyword counts. -/
theorem directive_spaced_cases :
    (∃ condition, line.directive (line.keyword ++ [' ']) = .opening condition) ∨
      (∃ condition, line.directive (line.keyword ++ [' ']) = .alternative condition) ∨
      line.directive (line.keyword ++ [' ']) = .closing := by
  rw [directive, Directive.ofText, line.words_spaced.1]
  rcases line.keyword_cases with h | h | h | h
  all_goals simp [h]

private theorem directive_glued (h : ¬ line.behind.Apart) : line.directive line.keyword = .other := by
  obtain ⟨hne, hsolid⟩ := line.keyword_solid
  have hfirst : Text.firstWord (line.gap ++ line.keyword ++ line.behind) =
      line.keyword ++ line.behind.takeWhile (!Text.isBlank ·) := Text.firstWord_eq line.isBlank_of_mem_gap hne hsolid
  have hmore : line.behind.takeWhile (!Text.isBlank ·) ≠ [] := by
    intro hnil
    cases hbehind : line.behind with
    | nil => simp [Text.Apart, hbehind] at h
    | cons c behind => simp_all [Text.Apart]
  obtain ⟨c, more, hcons⟩ := List.exists_cons_of_ne_nil hmore
  rw [directive, Directive.ofText, hfirst, hcons]
  rcases line.keyword_cases with h | h | h | h
  all_goals simp [h]

private theorem ofLine?_withWord (word : Text) : Directive.ofLine? (line.withWord word) = some (line.directive word) :=
  Directive.ofLine?_indented line.indent_inline

private theorem unbroken_withWord {word : Text} (h : word.Unbroken) : (line.withWord word).Unbroken :=
  Text.unbroken_indented line.indent_inline (line.unbroken_append h)

private theorem unbroken_keyword : line.keyword.Unbroken ∧ Text.Unbroken (line.keyword ++ [' ']) := by
  rcases line.keyword_cases with h | h | h | h
  all_goals
    rw [h]
    decide

section
variable {word : Text} (hword : word.Unbroken)
include hword

private theorem hides_behindFalse_line {next : Nat} {after skipped left : Text}
    (hnext : Directive.depthBehind? true 0 (some (line.directive word)) = some next) (h : Skips true next after skipped left) :
    (SourceUnit.ofText ("#if false\n".toList ++ (line.withWord word ++ '\n' :: after))).Hides
        ("#if false\n".toList.length + ((line.withWord word).length + 1)) ↔
      (List.replicate skipped.length true ++ disabledMask (readOn ⟨true, [.fails]⟩ left).1)[0]? = some true := by
  rw [← line.ofLine?_withWord] at hnext
  have hskips := h.cons_feed (line.unbroken_withWord hword) hnext
  have hlength : (line.withWord word ++ '\n' :: skipped).length = (line.withWord word).length + 1 + skipped.length := by
    simp [Nat.add_assoc, Nat.add_comm]
  refine (hides_behindFalse hskips _).trans ?_
  rw [hlength, List.replicate_add, List.append_assoc, ← Nat.add_zero (_ + 1), getElem?_replicate_append]

private theorem disabledMask_withWord (conditionals : List Condition) (after : Text) (k : Nat) :
    (disabledMask (readOn ⟨true, conditionals⟩ (line.withWord word ++ '\n' :: after)).1)[(line.withWord word).length + k]? =
      (disabledMask (readBehind ⟨true, conditionals⟩ (line.directive word) ('\n' :: after)).1)[k]? := by
  rw [withWord, disabledMask_directiveLine rfl line.indent_inline (line.unbroken_append hword) (by simp [Text.isBreak]),
    getElem?_replicate_append]
  rfl

end

section
variable (hglued : line.directive line.keyword = .other)
include hglued

/-- In a branch that fails, an opening directive takes the next closing one for its own. -/
theorem not_interchangeable_opening {condition : Condition}
    (hspaced : line.directive (line.keyword ++ [' ']) = .opening condition) : ¬ Interchangeable line.written line.spaced := by
  intro h
  have hbehind := h.hides_behind rfl (show Text.Complete "#if false\n".toList by decide) "#endif\n".toList
  have hstop : Skips true 0 "#endif\n".toList [] "#endif\n".toList := .stops (by decide) (by decide +kernel)
  have hpass : Skips true 1 "#endif\n".toList "#endif\n".toList [] :=
    (Skips.done 0).cons_feed (show Text.Unbroken "#endif".toList by decide) (by decide +kernel)
  rw [line.hides_behindFalse_line line.unbroken_keyword.1 (by rw [hglued]; rfl) hstop,
    line.hides_behindFalse_line line.unbroken_keyword.2 (by rw [hspaced]; rfl) hpass] at hbehind
  have hshown : (disabledMask (readOn ⟨true, [.fails]⟩ "#endif\n".toList).1)[0]? = some false := by decide +kernel
  exact absurd (hshown.symm.trans (hbehind.mpr rfl)) (by decide)

/-- In a branch that fails, a closing directive brings the lines behind it back. -/
theorem not_interchangeable_closing
    (hspaced : line.directive (line.keyword ++ [' ']) = .closing) : ¬ Interchangeable line.written line.spaced := by
  intro h
  have hbehind := h.hides_behind rfl (show Text.Complete "#if false\n".toList by decide) "x\n".toList
  have hpass : Skips true 0 "x\n".toList "x\n".toList [] :=
    (Skips.done 0).cons_feed (show Text.Unbroken "x".toList by decide) (by decide +kernel)
  have hstop : Skips true 0 (line.spaced ++ '\n' :: "x\n".toList) [] (line.spaced ++ '\n' :: "x\n".toList) := by
    rw [Skips.line_iff (line.unbroken_withWord line.unbroken_keyword.2) (by simp [Text.isBreak]) (by simp),
      ofLine?_withWord, hspaced]
    exact .inl ⟨rfl, rfl, rfl⟩
  rw [line.hides_behindFalse_line line.unbroken_keyword.1 (by rw [hglued]; rfl) hpass] at hbehind
  have hhidden := (hides_behindFalse hstop _).mp (hbehind.mp rfl)
  have hshown : (disabledMask (readBehind ⟨true, [.fails]⟩ .closing "\nx\n".toList).1)[1]? = none := by decide +kernel
  rw [List.length_nil, List.replicate_zero, List.nil_append, line.disabledMask_withWord line.unbroken_keyword.2, hspaced]
    at hhidden
  exact absurd (hshown.symm.trans hhidden) (by decide)

/-- In a branch that holds, an alternative disables the lines behind it. -/
theorem not_interchangeable_alternative {condition : Condition}
    (hspaced : line.directive (line.keyword ++ [' ']) = .alternative condition) :
    ¬ Interchangeable line.written line.spaced := by
  intro h
  have hbehind := h.hides_behind rfl (show Text.Complete "#if true\n".toList by decide) "x\n".toList
  have hshown : (disabledMask (readBehind ⟨true, [.holds]⟩ .other "\nx\n".toList).1)[1]? = none := by decide +kernel
  have hhidden : (disabledMask (readBehind ⟨true, [.holds]⟩ (.alternative condition) "\nx\n".toList).1)[1]? = some true := by
    cases condition <;> decide +kernel
  have hglued' := (hides_behindTrue (line.written ++ '\n' :: "x\n".toList) (line.written.length + 1)).mp
  have hspaced' := (hides_behindTrue (line.spaced ++ '\n' :: "x\n".toList) (line.spaced.length + 1)).mpr
  rw [line.disabledMask_withWord line.unbroken_keyword.1, hglued] at hglued'
  rw [line.disabledMask_withWord line.unbroken_keyword.2, hspaced] at hspaced'
  exact absurd (hshown.symm.trans (hglued' (hbehind.mpr (hspaced' hhidden)))) (by decide)

end

/-- A space behind the keyword of a line makes no difference to the other lines if a blank follows the keyword or the line
ends there. If not, the line holds no conditional directive, and any other word that makes none of it may stand there. -/
theorem interchangeable_spaced_iff :
    (Interchangeable line.written line.spaced ↔ line.behind.Apart) ∧
      (¬ line.behind.Apart → ∀ word : Text, word.Unbroken → '*' ∉ word → line.directive word = .other →
        Interchangeable line.written (line.withWord word)) := by
  obtain ⟨hkeyword, hspaced⟩ := line.unbroken_keyword
  have hstar : '*' ∉ line.keyword ∧ '*' ∉ line.keyword ++ [' '] := by
    rcases line.keyword_cases with h | h | h | h
    all_goals
      rw [h]
      decide
  refine ⟨⟨fun h => ?_, fun h => ?_⟩, fun h word hword hstar' hother => ?_⟩
  · by_contra hglued
    have hother := line.directive_glued hglued
    rcases line.directive_spaced_cases with ⟨condition, hopening⟩ | ⟨condition, halternative⟩ | hclosing
    · exact line.not_interchangeable_opening hother hopening h
    · exact line.not_interchangeable_alternative hother halternative h
    · exact line.not_interchangeable_closing hother hclosing h
  · exact line.interchangeable_withWord hkeyword hspaced hstar.1 hstar.2 (line.directive_spaced h).symm
  · exact line.interchangeable_withWord hkeyword hword hstar.1 hstar' ((line.directive_glued h).trans hother.symm)

def gluedCondition : KeywordLine where
  indent := []
  gap := []
  keyword := "if".toList
  behind := "(X)".toList
  indent_inline := Text.inline_nil
  gap_inline := Text.inline_nil
  isKeyword := by decide
  unbroken := by decide

theorem interchangeable_spaced_iff_gluedCondition :
    ¬ Interchangeable gluedCondition.written gluedCondition.spaced ∧
      Interchangeable gluedCondition.written (gluedCondition.withWord "region".toList) := by
  have hglued : ¬ gluedCondition.behind.Apart := by decide
  obtain ⟨hiff, hother⟩ := gluedCondition.interchangeable_spaced_iff
  exact ⟨mt hiff.mp hglued, hother hglued "region".toList (by decide) (by decide) (by decide +kernel)⟩

/-- The comment behind `#if(X)` and `#endif` is hidden if a space stands behind `#if`, and not otherwise. -/
theorem hides_gluedCondition :
    let before := "#if false\n".toList
    let behind := "\n#endif\n// <auto-generated/>\n#endif\n".toList
    ¬ (SourceUnit.ofText (before ++ gluedCondition.written ++ behind)).Hides 24 ∧
      (SourceUnit.ofText (before ++ gluedCondition.spaced ++ behind)).Hides 25 := by
  simp only [SourceUnit.hides_iff]
  decide +kernel

end KeywordLine

end Conditional

end SourceOrigin
