import SourceOrigin.Proofs.Lexer.Layout

/-! Blanks at the front of a text are read as layout and nothing else: a lexer that stands at the start of a line is still
there, in the same state, behind all of them. So a text is classified as it is without them. -/
namespace SourceOrigin

namespace Lexer
variable {state : State} {first : Char} {rest blanks text : Text} {step : Step}

private theorem Reads.layout_of_isBlank (h : Reads state (first :: rest) step) (hstart : state.atLineStart = true)
    (hblank : Text.isBlank first = true) : step.state = state ∧ ∀ piece ∈ step.pieces, piece.isLayout = true := by
  generalize htext : first :: rest = text at h
  cases h with
  | endOfLine =>
    refine ⟨?_, by simp [Trivia.isLayout, Trivia.isOneOf]⟩
    rw [← hstart]
  | whitespace => exact ⟨rfl, by simp [Trivia.isLayout, Trivia.isOneOf]⟩
  | lineComment hslashes =>
    obtain ⟨line, rfl⟩ := hslashes
    obtain rfl := (List.cons.inj htext).1
    exact absurd hblank (by decide)
  | blockComment | directive | disabling =>
    obtain rfl := (List.cons.inj htext).1
    exact absurd hblank (by decide)

/-- At the start of a line the lexer passes all blanks, and reads them as layout. -/
theorem exists_layout_run (hstart : state.atLineStart = true) (text : Text) : ∃ layout,
    Run state text layout state (text.dropWhile Text.isBlank) ∧ ∀ piece ∈ layout, piece.isLayout = true := by
  induction hlength : text.length using Nat.strongRecOn generalizing text with
  | _ n ih =>
    subst hlength
    cases text with
    | nil => exact ⟨[], .stay state [], by simp⟩
    | cons first rest =>
      cases hblank : Text.isBlank first with
      | false =>
        rw [List.dropWhile_cons_of_neg (by simp [hblank])]
        exact ⟨[], .stay state _, by simp⟩
      | true =>
        cases hread : readTrivia state first rest with
        | none => exact absurd (not_isBlank_of_readTrivia hread) (by simp [hblank])
        | some step =>
          have hreads := readTrivia_eq_some_iff.mp hread
          obtain ⟨hstate, hpieces⟩ := hreads.layout_of_isBlank hstart hblank
          obtain ⟨layout, hrun, hlayout⟩ := ih _ (length_readTrivia_lt hread) step.rest rfl
          have hpassed : (first :: rest).dropWhile Text.isBlank = step.rest.dropWhile Text.isBlank := by
            rw [← (tiles_readTrivia hread).covers, List.dropWhile_append_of_pos (hreads.isLayout_iff.mp hpieces)]
          rw [hpassed]
          refine ⟨step.pieces ++ layout, .step hread (by rwa [hstate]), ?_⟩
          exact List.forall_mem_append.mpr ⟨hpieces, hlayout⟩

/-- Blanks in front change neither the token that a lexer at the start of a line finds, nor the trivia before it that are
not layout. -/
theorem readOn_blanks (hblanks : ∀ c ∈ blanks, Text.isBlank c = true) (hstart : state.atLineStart = true)
    (text : Text) : (readOn state (blanks ++ text)).2 = (readOn state text).2 ∧
      (readOn state (blanks ++ text)).1.filter (!·.isLayout) = (readOn state text).1.filter (!·.isLayout) := by
  have hskip : ∀ text, (readOn state text).2 = (readOn state (text.dropWhile Text.isBlank)).2 ∧
      (readOn state text).1.filter (!·.isLayout) =
        (readOn state (text.dropWhile Text.isBlank)).1.filter (!·.isLayout) := by
    intro text
    obtain ⟨layout, hrun, hlayout⟩ := exists_layout_run hstart text
    have hnone : layout.filter (!·.isLayout) = [] := by simpa using hlayout
    rw [hrun.readOn_eq, Reading.andThen, List.filter_append, hnone, List.nil_append]
    exact ⟨rfl, rfl⟩
  have hdrop : (blanks ++ text).dropWhile Text.isBlank = text.dropWhile Text.isBlank :=
    List.dropWhile_append_of_pos hblanks
  have hblanks := hskip (blanks ++ text)
  rw [hdrop, ← (hskip text).1, ← (hskip text).2] at hblanks
  exact hblanks

end Lexer

namespace SourceUnit
variable {blanks text : Text}

def significantTrivia (unit : SourceUnit) : List Trivia := unit.firstTokenOrEnd.leadingTrivia.filter (!·.isLayout)

private theorem ofText_readOn (text : Text) (path : Option Text) :
    let reading := Lexer.readOn {} (withoutMark text)
    let unit := ofText text path
    unit.filePath = path ∧
      unit.firstToken.map (fun token => (token.kind, token.text)) =
        reading.2.map (fun token => (TokenKind.token, token)) ∧
      unit.firstTokenOrEnd.kind = (reading.2.map fun _ => TokenKind.token).getD .endOfFile ∧
      unit.firstTokenOrEnd.leadingTrivia = reading.1 := by
  intro reading unit
  cases hread : reading with
  | mk trivia token =>
    cases token with
    | none =>
      rw [show unit = _ from ofText_of_read_none hread]
      exact ⟨rfl, rfl, rfl, rfl⟩
    | some token =>
      rw [show unit = _ from ofText_of_read_some hread]
      exact ⟨rfl, rfl, rfl, rfl⟩

/-- Layout bears no mark, so the marked comments are among the trivia that are not layout; and all is layout if there are
no such trivia. -/
theorem classify_congr_significant {config : Config} {unit unit' : SourceUnit} (hpath : unit.filePath = unit'.filePath)
    (hkind : unit.firstTokenOrEnd.kind = unit'.firstTokenOrEnd.kind)
    (htrivia : unit.significantTrivia = unit'.significantTrivia) (token : CancellationToken) :
    classify config unit.tree token = classify config unit'.tree token := by
  have hmarks : ∀ unit : SourceUnit, unit.firstTokenOrEnd.leadingTrivia.any config.marks =
      unit.significantTrivia.any config.marks := by
    intro unit
    rw [significantTrivia, List.any_filter]
    congr 1
    funext piece
    cases hlayout : piece.isLayout with
    | true => rw [Config.marks_eq_false_of_isLayout hlayout]; rfl
    | false => rfl
  have hlayout : ∀ unit : SourceUnit, unit.firstTokenOrEnd.leadingTrivia.all (·.isLayout) =
      unit.significantTrivia.isEmpty := by
    intro unit
    rw [Bool.eq_iff_iff, significantTrivia]
    simp
  exact classify_congr hpath hkind (by rw [hmarks, hmarks, htrivia]) (by rw [hlayout, hlayout, htrivia]) token

/-- Blanks in front of a text do not matter, if the text does not begin with a byte-order mark, which is one at the very
front only. The first token and the trivia before it that are not layout stay the same, and so does every classification. -/
theorem ofText_leadingBlanks (hblanks : ∀ c ∈ blanks, Text.isBlank c = true)
    (hmark : ∀ c ∈ text.head?, c ≠ byteOrderMark) (path : Option Text) :
    let unit := ofText text path
    let moved := ofText (blanks ++ text) path
    moved.firstToken.map (fun token => (token.kind, token.text)) =
        unit.firstToken.map (fun token => (token.kind, token.text)) ∧
      moved.significantTrivia = unit.significantTrivia ∧
      ∀ config cancellation, classify config moved.tree cancellation = classify config unit.tree cancellation := by
  intro unit moved
  have hmoved : ∀ c ∈ (blanks ++ text).head?, c ≠ byteOrderMark := by
    rintro c hc rfl
    cases blanks with
    | nil => exact hmark _ hc rfl
    | cons first blanks =>
      obtain rfl : first = byteOrderMark := Option.some.inj hc
      exact absurd (hblanks _ List.mem_cons_self) (by decide)
  obtain ⟨hpath, htoken, hkind, htrivia⟩ := ofText_readOn text path
  obtain ⟨hpath', htoken', hkind', htrivia'⟩ := ofText_readOn (blanks ++ text) path
  obtain ⟨hsame, hsignificant⟩ := Lexer.readOn_blanks hblanks (show ({} : Lexer.State).atLineStart = true from rfl) text
  rw [withoutMark_of_head? hmark] at htoken hkind htrivia
  rw [withoutMark_of_head? hmoved] at htoken' hkind' htrivia'
  rw [hsame] at htoken' hkind'
  rw [← htrivia, ← htrivia'] at hsignificant
  exact ⟨htoken'.trans htoken.symm, hsignificant, fun config =>
    classify_congr_significant (hpath'.trans hpath.symm) (hkind'.trans hkind.symm) hsignificant⟩

/-- The blanks end in half of a break and may be followed by the other half; the directive behind is read all the same. -/
theorem ofText_leadingBlanks_halfBreak :
    let text := "\n#if false\n//-a\n #else\n\t/* <auto-generated> */ class".toList
    let moved := ofText ("\u3000\u2028\t\r".toList ++ text)
    moved.firstToken.map (fun token => (token.kind, token.text)) = some (.token, "class".toList) ∧
      moved.significantTrivia = [⟨.directive, "#if false".toList⟩, ⟨.disabledText, "//-a\n".toList⟩,
        ⟨.directive, "#else".toList⟩, ⟨.blockComment, "/* <auto-generated> */".toList⟩] ∧
      (classify {} moved.tree {}).outcome = .ok true := by
  intro text moved
  have hblanks : ("\u3000\u2028\t\r".toList).all Text.isBlank = true := by decide
  have hmark : ∀ c ∈ text.head?, c ≠ byteOrderMark := by
    intro c hc
    obtain rfl : '\n' = c := Option.some.inj hc
    decide
  obtain ⟨htoken, htrivia, hclassify⟩ := ofText_leadingBlanks (List.all_eq_true.mp hblanks) hmark none
  rw [htoken, htrivia, hclassify]
  exact ⟨by decide +kernel, by decide +kernel, by decide +kernel⟩

end SourceUnit

end SourceOrigin
