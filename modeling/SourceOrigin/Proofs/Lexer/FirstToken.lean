import SourceOrigin.Classification
import SourceOrigin.Proofs.Lexer.Lookahead

/-! The first token is the end of all reading: a text may be cut before it, or go on differently behind it. -/
namespace SourceOrigin

namespace Lexer
variable {state last : State} {first : Char} {text rest after left : Text} {pieces : List Trivia}

/-- A number sign at the start of a line begins a directive. -/
theorem readTrivia_sign (hstart : state.atLineStart = true) (rest : Text) :
    readTrivia state '#' rest = some (readDirective state ('#' :: rest)) := by
  rw [readTrivia_of_not_isBlank (by decide)]
  simp [Text.startsWith, List.isPrefixOf, hstart]

theorem Stops.head {token : Text} (h : Stops last left (some token)) :
    left ≠ [] ∧ ∀ c ∈ left.head?, Text.isBlank c = false := by
  cases left with
  | nil => simp [Stops] at h
  | cons first rest =>
    refine ⟨List.cons_ne_nil _ _, fun c hc => ?_⟩
    obtain rfl : first = c := by simpa using hc
    exact not_isBlank_of_readTrivia h.1

/-- A line that holds a directive is not empty. -/
theorem isBreak_of_ofLine? (h : Directive.ofLine? (Text.lineAt (first :: rest)) ≠ none) : Text.isBreak first = false := by
  cases hbreak : Text.isBreak first with
  | false => rfl
  | true => simp [Text.lineAt, hbreak, Directive.ofLine?] at h

/-- A line that holds a directive begins with a number sign behind blanks. -/
theorem eq_sign_of_ofLine? (hblank : Text.isBlank first = false)
    (h : Directive.ofLine? (Text.lineAt (first :: rest)) ≠ none) : first = '#' := by
  have hbreak := Text.isBreak_of_not_isBlank hblank
  have hline : Text.lineAt (first :: rest) = first :: Text.lineAt rest := by simp [hbreak]
  by_contra hne
  apply h
  rw [hline, Directive.ofLine?, Text.trimLeft, List.dropWhile_cons_of_neg (by simp [hblank])]
  split
  · next heq => exact absurd (List.cons.inj heq).1 hne
  · rfl

theorem ofLine?_dropWhile (text : Text) :
    Directive.ofLine? (Text.lineAt (text.dropWhile Text.isInlineBlank)) = Directive.ofLine? (Text.lineAt text) ∧
      text.takeWhile Text.isInlineBlank ++ Text.lineAt (text.dropWhile Text.isInlineBlank) = Text.lineAt text := by
  induction text with
  | nil => simp
  | cons c text ih =>
    by_cases hc : Text.isInlineBlank c = true
    · obtain ⟨hblank, hbreak⟩ : Text.isBlank c = true ∧ Text.isBreak c = false := by
        simpa [Text.isInlineBlank] using hc
      have hline : Text.lineAt (c :: text) = c :: Text.lineAt text := by simp [hbreak]
      rw [List.dropWhile_cons_of_pos hc, List.takeWhile_cons_of_pos hc, hline, ih.1, List.cons_append, ih.2]
      refine ⟨?_, rfl⟩
      simp only [Directive.ofLine?, Text.trimLeft, List.dropWhile_cons_of_pos hblank]
    · rw [List.dropWhile_cons_of_neg hc, List.takeWhile_cons_of_neg hc]
      exact ⟨rfl, rfl⟩

/-- A run that ends at a token and begins with a directive covers its line and the break behind it. -/
theorem Run.covers_line {token : Text} (hrun : Run state text pieces last left) (hstop : Stops last left (some token))
    (hstart : state.atLineStart = true) (hdirective : Directive.ofLine? (Text.lineAt text) ≠ none) :
    ∃ c more, Text.isBreak c = true ∧ Trivia.texts pieces = Text.lineAt text ++ c :: more := by
  induction hrun with
  | stay state text =>
    cases text with
    | nil => simp [Stops] at hstop
    | cons first rest =>
      obtain rfl := eq_sign_of_ofLine? (hstop.head.2 first rfl) hdirective
      simp [Stops, readTrivia_sign hstart] at hstop
  | @step state last first rest left step pieces hread hrun ih =>
    cases hblank : Text.isBlank first with
    | true =>
      have hbreak := isBreak_of_ofLine? hdirective
      rw [readTrivia_of_isInlineBlank (by simp [Text.isInlineBlank, hblank, hbreak])] at hread
      obtain rfl := Option.some.inj hread
      obtain ⟨hsame, hline⟩ := ofLine?_dropWhile (first :: rest)
      obtain ⟨c, more, hc, hmore⟩ := ih hstop hstart (by rwa [hsame])
      refine ⟨c, more, hc, ?_⟩
      rw [Trivia.texts_append, hmore, ← List.append_assoc, Trivia.texts_cons, Trivia.texts_nil, List.append_nil, hline]
    | false =>
      obtain rfl := eq_sign_of_ofLine? hblank hdirective
      have htiles := (Run.step hread hrun).tiles.covers
      rw [readTrivia_sign hstart] at hread
      obtain rfl := Option.some.inj hread
      obtain ⟨others, hpieces⟩ : ∃ others, (readDirective state ('#' :: rest)).pieces =
          ⟨.directive, Text.lineAt ('#' :: rest)⟩ :: others := by
        unfold readDirective
        dsimp only
        split
        · exact ⟨[], rfl⟩
        · exact ⟨_, rfl⟩
      rw [hpieces, List.cons_append, Trivia.texts_cons] at htiles ⊢
      have hbehind : Trivia.texts (others ++ pieces) ++ left = Text.afterLine ('#' :: rest) := by
        conv_rhs at htiles => rw [← Text.lineAt_append_afterLine ('#' :: rest)]
        rw [List.append_assoc] at htiles
        exact List.append_cancel_left htiles
      -- The token does not begin with a break, so the break behind the line is part of what is read.
      have hhead := Text.isBreak_of_mem_afterLine ('#' :: rest)
      rw [← hbehind] at hhead
      cases hmore : Trivia.texts (others ++ pieces) with
      | nil =>
        rw [hmore, List.nil_append] at hhead
        obtain ⟨c, more, rfl⟩ := List.exists_cons_of_ne_nil hstop.head.1
        have hc := Text.isBlank_of_isBreak (hhead c rfl)
        simp [hstop.head.2 c rfl] at hc
      | cons c more => exact ⟨c, more, hhead c (by rw [hmore]; rfl), rfl⟩

/-- Before a token a run leaves the text that it reads resembled by what it reads, in front of any text that begins like
the token or is at its end. -/
theorem Run.resembles {token : Text} (hrun : Run state text pieces last left) (hstop : Stops last left (some token))
    (hafter : after = [] ∨ after.head? = left.head?) : Resembles state text (Trivia.texts pieces ++ after) := by
  have hcovers := hrun.tiles.covers
  refine ⟨?_, ?_, fun hstart hdirective => ?_⟩
  · rw [← hcovers]
    simp [hstop.head.1]
  · rw [← hcovers]
    cases Trivia.texts pieces with
    | nil => exact hafter
    | cons c more => exact .inr rfl
  · obtain ⟨c, more, hc, hmore⟩ := hrun.covers_line hstop hstart hdirective
    constructor
    · rw [← hcovers, hmore]
      simp
    · rw [hmore, List.append_assoc, List.cons_append]
      exact (Text.line_append (Text.unbroken_lineAt text) (by simpa using hc)).1

/-- A run that ends at a token is a run in front of any text that begins like the token or is at its end. -/
theorem Run.replace {token : Text} (hrun : Run state text pieces last left) (hstop : Stops last left (some token))
    (hafter : after = [] ∨ after.head? = left.head?) :
    Run state (Trivia.texts pieces ++ after) pieces last after := by
  induction hrun with
  | stay state text => exact .stay state after
  | step hread hrun ih =>
    obtain ⟨rest', htext, hread'⟩ := readTrivia_append hread (hrun.resembles hstop hafter)
    rw [Trivia.texts_append, List.append_assoc, htext]
    have hnext := Run.step hread' (ih hstop hafter)
    exact hnext

/-- A token starts where a character is not blank and begins neither a comment nor a directive. -/
theorem readTrivia_eq_none_iff : readTrivia state first rest = none ↔
    Text.isBlank first = false ∧ Text.startsWith "//".toList (first :: rest) = false ∧
      Text.startsWith "/*".toList (first :: rest) = false ∧ (first = '#' → state.atLineStart = false) := by
  constructor
  · intro h
    have hblank := not_isBlank_of_readTrivia h
    rw [readTrivia_of_not_isBlank hblank] at h
    refine ⟨hblank, ?_⟩
    split at h
    · simp at h
    next hcomment =>
    split at h
    · simp at h
    next hblock =>
    split at h
    · simp at h
    next hdirective => exact ⟨Bool.eq_false_iff.mpr hcomment, Bool.eq_false_iff.mpr hblock, by simpa using hdirective⟩
  · rintro ⟨hblank, hcomment, hblock, hdirective⟩
    rw [readTrivia_of_not_isBlank hblank, if_neg (Bool.eq_false_iff.mp hcomment),
      if_neg (Bool.eq_false_iff.mp hblock), if_neg (by simpa using hdirective)]

/-- A token is the same wherever a blank follows it, or nothing. -/
theorem Stops.replace {token behind : Text} (h : Stops last left (some token)) (hbehind : Text.Apart behind) :
    Stops last (token ++ behind) (some token) := by
  obtain ⟨hne, hsolid, behind', rfl, hbehind'⟩ := h.token
  obtain ⟨first, token, rfl⟩ := List.exists_cons_of_ne_nil hne
  have hstart : ∀ start : Text, Text.Solid start → ∀ rest, Text.Apart rest →
      Text.startsWith start (first :: (token ++ rest)) = Text.startsWith start (first :: token) := by
    intro start hstart rest hrest
    rw [← List.cons_append]
    refine Text.startsWith_append (fun c hc hmem => ?_) (first :: token)
    have hblank := hrest c hc
    simp [hstart c hmem] at hblank
  have hread : readTrivia last first (token ++ behind') = none := h.1
  obtain ⟨hblank, hcomment, hblock, hdirective⟩ := readTrivia_eq_none_iff.mp hread
  rw [hstart _ (by decide) _ hbehind'] at hcomment hblock
  refine ⟨readTrivia_eq_none_iff.mpr ⟨hblank, ?_, ?_, hdirective⟩, congrArg some ?_⟩
  · exact (hstart _ (by decide) _ hbehind).trans hcomment
  · exact (hstart _ (by decide) _ hbehind).trans hblock
  · have htoken : ∀ c ∈ first :: token, (!Text.isBlank c) = true := fun c hc => by simp [hsolid c hc]
    exact (Text.span_append htoken fun c hc => by simp [hbehind c hc]).1.symm

/-- The reading of a text that is cut before its first token, and of one that goes on differently behind it. -/
theorem readOn_replace {token : Text} (h : readOn state text = (pieces, some token)) :
    readOn state (Trivia.texts pieces) = (pieces, none) ∧
      ∀ behind, Text.Apart behind → readOn state (Trivia.texts pieces ++ (token ++ behind)) = (pieces, some token) := by
  obtain ⟨last, left, hrun, hstop⟩ := exists_run state text
  rw [h] at hrun hstop
  obtain ⟨hne, -, behind', rfl, -⟩ := hstop.token
  refine ⟨?_, fun behind hbehind => ?_⟩
  · have hcut : Run state (Trivia.texts pieces ++ []) pieces last [] := hrun.replace hstop (.inl rfl)
    rw [List.append_nil] at hcut
    exact hcut.readOn_of_stops rfl
  · have hbegin : (token ++ behind).head? = (token ++ behind').head? := by
      cases token with
      | nil => exact absurd rfl hne
      | cons c token => rfl
    exact (hrun.replace hstop (.inr hbegin)).readOn_of_stops (hstop.replace hbehind)

end Lexer

namespace SourceUnit
variable {text : Text} {path : Option Text}

private theorem read_of_firstToken {token : Token} (h : (ofText text path).firstToken = some token) :
    token.kind = .token ∧ Lexer.readOn {} (withoutMark text) = (token.leadingTrivia, some token.text) := by
  unfold ofText at h
  dsimp only at h
  cases hread : Lexer.read (withoutMark text) with
  | mk trivia tokenText =>
    rw [hread] at h
    cases tokenText with
    | none => simp at h
    | some tokenText =>
      obtain rfl := Option.some.inj h
      exact ⟨rfl, hread⟩

theorem ofText_of_read_none {trivia : List Trivia} (h : Lexer.readOn {} (withoutMark text) = (trivia, none)) :
    ofText text path = ⟨path, withoutMark text, none, ⟨.endOfFile, [], trivia⟩⟩ := by
  have hread : Lexer.read (withoutMark text) = (trivia, none) := h
  simp only [ofText, hread]

theorem ofText_of_read_some {trivia : List Trivia} {token : Text}
    (h : Lexer.readOn {} (withoutMark text) = (trivia, some token)) :
    ofText text path = ⟨path, withoutMark text, some ⟨.token, token, trivia⟩, ⟨.endOfFile, [], []⟩⟩ := by
  have hread : Lexer.read (withoutMark text) = (trivia, some token) := h
  simp only [ofText, hread]

/-- Nothing behind the first token matters. If a text goes on differently behind its first token, the token and its
trivia stay the same, and so does every classification; if it is cut before the token, the same trivia are left for the
end of the file. -/
theorem ofText_firstToken {token : Token} (hmark : ∀ c ∈ text.head?, c ≠ byteOrderMark)
    (htoken : (ofText text path).firstToken = some token) :
    let front := Trivia.texts token.leadingTrivia
    (∀ behind, Text.Apart behind →
      (ofText (front ++ token.text ++ behind) path).firstToken = some token ∧
      ∀ config cancellation, classify config (ofText (front ++ token.text ++ behind) path).tree cancellation =
        classify config (ofText text path).tree cancellation) ∧
    (ofText front path).firstToken = none ∧ (ofText front path).endOfFile.leadingTrivia = token.leadingTrivia := by
  obtain ⟨hkind, hread⟩ := read_of_firstToken htoken
  obtain ⟨hcut, hbehind⟩ := Lexer.readOn_replace hread
  obtain ⟨kind, tokenText, trivia⟩ := token
  dsimp only at hkind hread hcut hbehind ⊢
  subst hkind
  -- Both texts begin like the text, so neither begins with a mark that would be dropped.
  obtain ⟨last, left, hrun, hstop⟩ := exists_run text path
  have hrest := hrun.tiles.covers
  rw [firstTokenOrEnd, htoken, withoutMark_of_head? hmark] at hrest
  rw [htoken] at hstop
  obtain ⟨hne, -, rest, rfl, -⟩ := hstop.token
  dsimp only [Option.getD_some] at hne hrest
  have hfront : withoutMark (Trivia.texts trivia) = Trivia.texts trivia := by
    refine withoutMark_of_head? fun c hc => hmark c ?_
    rw [← hrest, List.head?_append, hc]
    rfl
  have hwhole : ∀ behind, withoutMark (Trivia.texts trivia ++ (tokenText ++ behind)) =
      Trivia.texts trivia ++ (tokenText ++ behind) := by
    refine fun behind => withoutMark_of_head? fun c hc => hmark c ?_
    obtain ⟨first, tokenText, rfl⟩ := List.exists_cons_of_ne_nil hne
    rw [← hrest]
    simpa using hc
  refine ⟨fun behind hapart => ?_, ?_⟩
  · have hread' := hbehind behind hapart
    rw [← hwhole] at hread'
    rw [List.append_assoc, ofText_of_read_some hread']
    refine ⟨rfl, fun config cancellation => ?_⟩
    rw [ofText_of_read_some hread]
    rfl
  · rw [← hfront] at hcut
    rw [ofText_of_read_none hcut]
    exact ⟨rfl, rfl⟩

/-- A number sign behind a comment starts a token, though it would open a conditional at the start of the line. -/
theorem ofText_firstToken_sign :
    let text := "#if false\n\t/* a\n# else\n/*/*/ #if true\nclass A".toList
    let trivia : List Trivia := [⟨.directive, "#if false".toList⟩, ⟨.endOfLine, ['\n']⟩,
      ⟨.disabledText, "\t/* a\n".toList⟩, ⟨.directive, "# else".toList⟩, ⟨.endOfLine, ['\n']⟩,
      ⟨.blockComment, "/*/*/".toList⟩, ⟨.whitespace, [' ']⟩]
    let other := "#if false\n\t/* a\n# else\n/*/*/ #if\u2028*/ // <auto-generated>".toList
    (∀ c ∈ text.head?, c ≠ byteOrderMark) ∧ (ofText text).firstToken = some ⟨.token, "#if".toList, trivia⟩ ∧
      (ofText other).firstToken = some ⟨.token, "#if".toList, trivia⟩ ∧
      (∀ config cancellation, classify config (ofText other).tree cancellation =
        classify config (ofText text).tree cancellation) ∧
      (ofText (Trivia.texts trivia)).endOfFile.leadingTrivia = trivia := by
  intro text trivia other
  have hmark : ∀ c ∈ text.head?, c ≠ byteOrderMark := by
    intro c hmem
    obtain rfl : '#' = c := Option.some.inj hmem
    decide
  have htoken : (ofText text).firstToken = some ⟨.token, "#if".toList, trivia⟩ := by decide +kernel
  have hapart : Text.Apart "\u2028*/ // <auto-generated>".toList := by decide
  obtain ⟨hbehind, -, hcut⟩ := ofText_firstToken hmark htoken
  obtain ⟨hother, hclassify⟩ := hbehind _ hapart
  have hsame : Trivia.texts trivia ++ "#if".toList ++ "\u2028*/ // <auto-generated>".toList = other := by decide
  rw [hsame] at hother hclassify
  exact ⟨hmark, htoken, hother, hclassify, hcut⟩

end SourceUnit

end SourceOrigin
