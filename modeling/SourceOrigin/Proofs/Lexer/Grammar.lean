import SourceOrigin.Proofs.Lexer.FirstToken
import SourceOrigin.Proofs.Lexer.Steps

/-! The grammar of trivia: what a piece of each kind looks like, and what may stand before and behind it. A piece is
judged among all others, so the facts are carried along a run together with what was read before it. -/
namespace SourceOrigin.Lexer
variable {state last : State} {text rest left : Text} {step : Step} {before front behind pieces : List Trivia}
  {piece : Trivia} {token : Option Text}

def lineFront (before : List Trivia) : List Trivia :=
  before.reverse.takeWhile (!·.isOneOf [.endOfLine, .disabledText])

def EndsLine (behind : List Trivia) (token : Option Text) : Prop :=
  match behind with
  | [] => token = none
  | next :: _ => next.kind = .endOfLine

def Resumes (behind : List Trivia) (token : Option Text) : Prop :=
  match behind.map Trivia.kind with
  | [] => token = none
  | .directive :: _ => True
  | .whitespace :: .directive :: _ => True
  | _ => False

/-- The shape of a piece of trivia between the pieces before and behind it, where the text goes on with `rest`. -/
def Shaped (before : List Trivia) (piece : Trivia) (behind : List Trivia) (token : Option Text) (rest : Text) : Prop :=
  match piece.kind with
  | .endOfLine => piece.text ∈ Text.breakForms
  | .whitespace => piece.text ≠ [] ∧ piece.text.Inline ∧
      (∀ c ∈ (Trivia.texts before).getLast?, Text.isInlineBlank c = false) ∧
      ∀ c ∈ rest.head?, Text.isInlineBlank c = false
  | .lineComment | .lineDocComment => "//".toList <+: piece.text ∧ piece.text.Unbroken ∧
      (piece.kind = .lineDocComment ↔ "///".toList <+: piece.text ∧ ¬ "////".toList <+: piece.text) ∧
      EndsLine behind token
  | .blockComment | .blockDocComment => "/*".toList <+: piece.text ∧
      (piece.kind = .blockDocComment ↔ "/**".toList <+: piece.text ∧ ¬ "/**/".toList <+: piece.text) ∧
      (Closes (piece.text.drop 2) ∨ ¬ "*/".toList <:+: piece.text.drop 2 ∧ behind = [] ∧ token = none)
  | .directive => (∃ line, piece.text = '#' :: line) ∧ piece.text.Unbroken ∧
      (lineFront before = [] ∨ ∃ gap, lineFront before = [⟨.whitespace, gap⟩]) ∧ EndsLine behind token
  | .disabledText => piece.text ≠ [] ∧
      (∃ front line brk, before = front ++ [⟨.directive, line⟩, ⟨.endOfLine, brk⟩]) ∧ Resumes behind token

def Fits (before : List Trivia) (piece : Trivia) (behind : List Trivia) (token : Option Text) (rest : Text) : Prop :=
  Text.CleanCut (Trivia.texts before ++ piece.text) rest ∧ Shaped before piece behind token rest

/-- The trivia and the token before which they stand are those of a text by the rules for its pieces. -/
structure IsGrammatical (text : Text) (trivia : List Trivia) (token : Option Text) : Prop where
  fits : ∀ before piece behind, trivia = before ++ piece :: behind →
    ∃ rest, Trivia.texts before ++ (piece.text ++ rest) = text ∧ Fits before piece behind token rest
  apart : ∀ before piece next behind, trivia = before ++ piece :: next :: behind →
    ¬ (piece.kind = .whitespace ∧ next.kind = .whitespace)

def AllFit (token : Option Text) (left : Text) : List Trivia → List Trivia → Prop
  | _, [] => True
  | before, piece :: behind =>
    Fits before piece behind token (Trivia.texts behind ++ left) ∧ AllFit token left (before ++ [piece]) behind

theorem AllFit.cons (hmore : AllFit token left (before ++ [piece]) behind) (hcovers : Trivia.texts behind ++ left = rest)
    (hne : piece.text ≠ []) (hcut : Text.CleanCut piece.text rest) (hshape : Shaped before piece behind token rest) :
    AllFit token left before (piece :: behind) := by
  rw [← hcovers] at hcut hshape
  exact ⟨⟨hcut.append_left hne _, hshape⟩, hmore⟩

private theorem AllFit.fits (h : AllFit token left before (front ++ piece :: behind)) :
    Fits (before ++ front) piece behind token (Trivia.texts behind ++ left) := by
  induction front generalizing before with
  | nil => simpa using h.1
  | cons first front ih => simpa using ih h.2

section
variable (hrun : Run state text pieces last left) (hstop : Stops last left token)
include hrun hstop

/-- Before a line break, and at the end of a text, a run goes on with the break or is over. -/
private theorem Run.endsLine (h : ∀ c ∈ text.head?, Text.isBreak c = true) : EndsLine pieces token := by
  cases hrun with
  | stay =>
    cases text with
    | nil => exact hstop
    | cons first rest =>
      have hblank := not_isBlank_of_readTrivia hstop.1
      simp [Text.isBlank_of_isBreak (h first rfl)] at hblank
  | step hread hrun =>
    simp only [readTrivia, h _ rfl, if_pos] at hread
    obtain rfl := Option.some.inj hread
    exact rfl

/-- Before a number sign that begins a directive, a run goes on with the directive. -/
private theorem Run.exists_directive (hstart : state.atLineStart = true) (h : text.head? = some '#') :
    ∃ line more, pieces = ⟨.directive, line⟩ :: more := by
  cases hrun with
  | stay =>
    obtain ⟨rest, rfl⟩ := List.head?_eq_some_iff.mp h
    simp [Stops, readTrivia_sign hstart] at hstop
  | step hread hrun =>
    obtain rfl := Option.some.inj h
    rw [readTrivia_sign hstart] at hread
    obtain rfl := Option.some.inj hread
    unfold readDirective
    dsimp only
    split
    all_goals exact ⟨_, _, rfl⟩

/-- Before the line that ends a disabled run, a run goes on with its directive. -/
private theorem Run.resumes (hstart : state.atLineStart = true)
    (h : text ≠ [] → Directive.ofLine? (Text.lineAt text) ≠ none) : Resumes pieces token := by
  cases hrun with
  | stay =>
    cases text with
    | nil => exact hstop
    | cons first rest =>
      obtain rfl := eq_sign_of_ofLine? (not_isBlank_of_readTrivia hstop.1) (h (List.cons_ne_nil _ _))
      simp [Stops, readTrivia_sign hstart] at hstop
  | @step _ _ first rest _ step more hread hmore =>
    have hdirective := h (List.cons_ne_nil _ _)
    cases hblank : Text.isBlank first with
    | false =>
      obtain rfl := eq_sign_of_ofLine? hblank hdirective
      obtain ⟨line, more, hpieces⟩ := (Run.step hread hmore).exists_directive hstop hstart rfl
      rw [hpieces]
      trivial
    | true =>
      have hbreak := isBreak_of_ofLine? hdirective
      have hinline : Text.isInlineBlank first = true := by simp [Text.isInlineBlank, hblank, hbreak]
      rw [readTrivia_of_isInlineBlank hinline] at hread
      obtain rfl := Option.some.inj hread
      obtain ⟨hsame, -⟩ := ofLine?_dropWhile (first :: rest)
      rw [← hsame] at hdirective
      dsimp only at hmore
      have hhead := Text.head?_dropWhile (p := Text.isInlineBlank) (first :: rest)
      generalize (first :: rest).dropWhile Text.isInlineBlank = behind at hmore hdirective hhead
      obtain ⟨c, behind, rfl⟩ := List.exists_cons_of_ne_nil
        (fun hnil : behind = [] => hdirective (by rw [hnil]; rfl))
      have hc : Text.isBlank c = false := by
        cases hblank : Text.isBlank c with
        | false => rfl
        | true =>
          have hbreak : Text.isBreak c = true := by simpa [Text.isInlineBlank, hblank] using hhead c rfl
          simp [Text.lineAt, hbreak, Directive.ofLine?] at hdirective
      obtain rfl := eq_sign_of_ofLine? hc hdirective
      obtain ⟨line, more, rfl⟩ := hmore.exists_directive hstop hstart rfl
      trivial

end

/-- What is known where a step starts: white space does not go on there, and a directive would be the first on its
line. -/
structure Ready (state : State) (before : List Trivia) (text : Text) : Prop where
  gap : (∀ c ∈ (Trivia.texts before).getLast?, Text.isInlineBlank c = false) ∨
    ∀ c ∈ text.head?, Text.isInlineBlank c = false
  line : state.atLineStart = true → lineFront before = [] ∨
    ((∃ gap, lineFront before = [⟨.whitespace, gap⟩]) ∧ ∀ c ∈ text.head?, Text.isInlineBlank c = false) ∨
    ∀ c ∈ text.head?, Text.isBreak c = true

theorem Ready.start (text : Text) : Ready {} [] text := ⟨.inl (by simp), fun _ => .inl rfl⟩

private theorem Ready.of_break (hkind : piece.kind = .endOfLine ∨ piece.kind = .disabledText) (hne : piece.text ≠ [])
    (hlast : ∀ c ∈ piece.text.getLast?, Text.isBreak c = true) : Ready state (before ++ [piece]) text := by
  refine ⟨.inl ?_, fun _ => .inl ?_⟩
  · rw [Trivia.texts_append, Trivia.texts_cons, Trivia.texts_nil, List.append_nil, List.getLast?_append_of_ne_nil _ hne]
    exact fun c hc => Text.isInlineBlank_of_isBreak (hlast c hc)
  · rw [lineFront, List.reverse_append, List.reverse_singleton, List.singleton_append, List.takeWhile_cons_of_neg]
    rcases hkind with hkind | hkind <;> simp [Trivia.isOneOf, hkind]

private theorem Ready.of_head (h : ∀ c ∈ text.head?, Text.isBreak c = true) : Ready state before text :=
  ⟨.inr fun c hc => Text.isInlineBlank_of_isBreak (h c hc), fun _ => .inr (.inr h)⟩

private theorem Ready.lineFront_of_sign (h : Ready state before text) (hstart : state.atLineStart = true)
    (hsign : text.head? = some '#') : lineFront before = [] ∨ ∃ gap, lineFront before = [⟨.whitespace, gap⟩] := by
  rcases h.line hstart with hfront | ⟨hfront, -⟩ | hhead
  · exact .inl hfront
  · exact .inr hfront
  · exact absurd (hhead '#' hsign) (by decide)

/-- A step leaves the lexer ready for the next one. -/
theorem Reads.ready (h : Reads state text step) (hready : Ready state before text) :
    Ready step.state (before ++ step.pieces) step.rest := by
  cases h with
  | endOfLine hform hcut =>
    exact .of_break (.inl rfl) (Text.ne_nil_of_mem_breakForms hform)
      fun c hc => Text.isBreak_of_mem_breakForms hform c (List.mem_of_getLast? hc)
  | @whitespace gap rest hne hinline hrest =>
    refine ⟨.inr hrest, fun hstart => .inr (.inl ⟨⟨gap, ?_⟩, hrest⟩)⟩
    obtain ⟨c, gap, rfl⟩ := List.exists_cons_of_ne_nil hne
    have hc : Text.isInlineBlank c = true := hinline c List.mem_cons_self
    have hfront : lineFront before = [] := by
      rcases hready.line hstart with hfront | ⟨-, hhead⟩ | hhead
      · exact hfront
      · exact absurd (hhead c rfl) (by simp [hc])
      · exact absurd (Text.isInlineBlank_of_isBreak (hhead c rfl)) (by simp [hc])
    have hfront' : lineFront (before ++ [⟨.whitespace, c :: gap⟩]) = ⟨.whitespace, c :: gap⟩ :: lineFront before := by
      simp [lineFront, Trivia.isOneOf]
    rw [hfront', hfront]
  | lineComment hstart hunbroken hrest => exact .of_head hrest
  | @blockComment body rest hbody =>
    refine ⟨?_, fun hstart => absurd hstart (by simp)⟩
    rcases hbody with ⟨⟨front, rfl⟩, -⟩ | ⟨-, rfl⟩
    · left
      intro c hc
      obtain rfl : '/' = c := by simpa [List.getLast?_cons_of_ne_nil, List.getLast?_append] using hc
      decide
    · exact .inr (by simp)
  | directive hstart hunbroken hrest htrack => exact .of_head hrest
  | @disabling line rest skipped left conditionals toAlternative hstart hunbroken hrest htrack hskips =>
    rcases skips_cases hrest hskips with ⟨rfl, rfl, rfl⟩ | ⟨hform, -⟩
    · exact .of_head (by simp)
    have hbreak := Text.ne_nil_of_mem_breakForms hform
    dsimp only
    rw [Conditional.optionalPiece, if_neg hbreak]
    by_cases hleft : left = []
    · exact .of_head (by simp [hleft])
    by_cases hskipped : skipped = []
    · rw [Conditional.optionalPiece, if_pos hskipped, List.append_nil, ← List.singleton_append, ← List.append_assoc]
      exact .of_break (.inl rfl) hbreak
        fun c hc => Text.isBreak_of_mem_breakForms hform c (List.mem_of_getLast? hc)
    · rw [Conditional.optionalPiece, if_neg hskipped, ← List.cons_append, ← List.append_assoc]
      exact .of_break (.inr rfl) hskipped (hskips.ends hleft hskipped).1

/-! ### What each step reads fits -/

section
variable {more : List Trivia} (hcovers : Trivia.texts more ++ left = rest)
include hcovers

private theorem AllFit.whitespace {gap : Text} (hne : gap ≠ []) (hinline : gap.Inline)
    (hrest : ∀ c ∈ rest.head?, Text.isInlineBlank c = false)
    (hgap : (∀ c ∈ (Trivia.texts before).getLast?, Text.isInlineBlank c = false) ∨
      ∀ c ∈ (gap ++ rest).head?, Text.isInlineBlank c = false)
    (hmore : AllFit token left (before ++ [⟨.whitespace, gap⟩]) more) :
    AllFit token left before (⟨.whitespace, gap⟩ :: more) := by
  refine hmore.cons hcovers hne (Text.cleanCut_of_unbroken (fun c hc => ?_) _) ⟨hne, hinline, ?_, hrest⟩
  · simpa [Text.isInlineBlank] using (Bool.and_eq_true_iff.mp (hinline c hc)).2
  · obtain ⟨c, gap, rfl⟩ := List.exists_cons_of_ne_nil hne
    have hc : Text.isInlineBlank c = true := hinline c List.mem_cons_self
    exact hgap.resolve_right fun hhead => absurd (hhead c rfl) (by simp [hc])

private theorem AllFit.lineComment {line : Text} (hstart : "//".toList <+: line) (hunbroken : line.Unbroken)
    (hends : EndsLine more token) (hmore : AllFit token left (before ++ [⟨Conditional.commentKind line, line⟩]) more) :
    AllFit token left before (⟨Conditional.commentKind line, line⟩ :: more) := by
  have hne : line ≠ [] := by
    rintro rfl
    simp at hstart
  refine hmore.cons hcovers hne (Text.cleanCut_of_unbroken hunbroken _) ?_
  unfold Conditional.commentKind
  split
  · next hdoc => exact ⟨hstart, hunbroken, iff_of_true rfl hdoc, hends⟩
  · next hdoc => exact ⟨hstart, hunbroken, iff_of_false (by simp) hdoc, hends⟩

private theorem AllFit.blockComment {body : Text} (hbody : Closes body ∨ ¬ "*/".toList <:+: body ∧ rest = [])
    (hend : rest = [] → more = [] ∧ token = none)
    (hmore : AllFit token left (before ++ [⟨blockKind ("/*".toList ++ body), "/*".toList ++ body⟩]) more) :
    AllFit token left before (⟨blockKind ("/*".toList ++ body), "/*".toList ++ body⟩ :: more) := by
  have hcut : Text.CleanCut ("/*".toList ++ body) rest :=
    Text.cleanCut_cons (by simp) (Text.cleanCut_cons (fun _ => Text.cleanCut_of_unbroken (by decide) rest)
      (cleanCut_of_closes hbody))
  have hclosed : Closes body ∨ ¬ "*/".toList <:+: body ∧ more = [] ∧ token = none :=
    hbody.imp_right fun hopen => ⟨hopen.1, hend hopen.2⟩
  refine hmore.cons hcovers (by simp) hcut ?_
  unfold blockKind
  split
  · next hdoc => exact ⟨⟨body, rfl⟩, iff_of_true rfl hdoc, hclosed⟩
  · next hdoc => exact ⟨⟨body, rfl⟩, iff_of_false (by simp) hdoc, hclosed⟩

private theorem AllFit.directive {line : Text} (hunbroken : Text.Unbroken ('#' :: line))
    (hfront : lineFront before = [] ∨ ∃ gap, lineFront before = [⟨.whitespace, gap⟩]) (hends : EndsLine more token)
    (hmore : AllFit token left (before ++ [⟨.directive, '#' :: line⟩]) more) :
    AllFit token left before (⟨.directive, '#' :: line⟩ :: more) :=
  hmore.cons hcovers (by simp) (Text.cleanCut_of_unbroken hunbroken _) ⟨⟨line, rfl⟩, hunbroken, hfront, hends⟩

end

/-- Behind a disabling directive come the break of its line and, unless it is empty, the disabled text. -/
private theorem AllFit.disabling {line skipped left' : Text} {more : List Trivia} {toAlternative : Bool}
    (hunbroken : Text.Unbroken ('#' :: line))
    (hfront : lineFront before = [] ∨ ∃ gap, lineFront before = [⟨.whitespace, gap⟩])
    (hskips : Skips toAlternative 0 (Text.afterBreak rest) skipped left') (hform : Text.breakAt rest ∈ Text.breakForms)
    (hclean : Text.CleanCut (Text.breakAt rest) (skipped ++ left')) (hcovers : Trivia.texts more ++ left = left')
    (hresumes : Resumes more token)
    (hmore : AllFit token left (before ++ [⟨.directive, '#' :: line⟩] ++ [⟨.endOfLine, Text.breakAt rest⟩] ++
      Conditional.optionalPiece .disabledText skipped) more) :
    AllFit token left before (⟨.directive, '#' :: line⟩ :: ⟨.endOfLine, Text.breakAt rest⟩ ::
      (Conditional.optionalPiece .disabledText skipped ++ more)) := by
  have hbreak := Text.ne_nil_of_mem_breakForms hform
  have hwhole : Text.breakAt rest ++ (skipped ++ left') = rest := by
    rw [hskips.append_eq, Text.breakAt_append_afterBreak]
  have htexts : Trivia.texts (Conditional.optionalPiece .disabledText skipped ++ more) ++ left = skipped ++ left' := by
    rw [Trivia.texts_append, texts_optionalPiece, List.append_assoc, hcovers]
  have hdisabled : AllFit token left (before ++ [⟨.directive, '#' :: line⟩] ++ [⟨.endOfLine, Text.breakAt rest⟩])
      (Conditional.optionalPiece .disabledText skipped ++ more) := by
    by_cases hskipped : skipped = []
    · rw [Conditional.optionalPiece, if_pos hskipped] at hmore ⊢
      rwa [List.append_nil] at hmore
    · have hends : Text.CleanCut skipped left' := by
        by_cases hleft : left' = []
        · exact hleft ▸ Text.cleanCut_nil_right skipped
        · exact (hskips.ends hleft hskipped).2
      rw [Conditional.optionalPiece, if_neg hskipped] at hmore ⊢
      exact hmore.cons hcovers hskipped hends ⟨hskipped, ⟨before, _, _, List.append_assoc _ _ _⟩, hresumes⟩
  refine (hdisabled.cons htexts hbreak hclean hform).cons ?_ (by simp) (Text.cleanCut_of_unbroken hunbroken rest)
    ⟨⟨line, rfl⟩, hunbroken, hfront, rfl⟩
  rw [Trivia.texts_cons, List.append_assoc, htexts, hwhole]

/-- The pieces of a step fit behind what was read before, if the run goes on behind them. -/
theorem Reads.allFit {more : List Trivia} (h : Reads state text step) (hready : Ready state before text)
    (hrun : Run step.state step.rest more last left) (hstop : Stops last left token)
    (hmore : AllFit token left (before ++ step.pieces) more) : AllFit token left before (step.pieces ++ more) := by
  have hcovers := hrun.tiles.covers
  have hline : (∀ c ∈ step.rest.head?, Text.isBreak c = true) → EndsLine more token := hrun.endsLine hstop
  cases h with
  | endOfLine hform hcut => exact hmore.cons hcovers (Text.ne_nil_of_mem_breakForms hform) hcut hform
  | whitespace hne hinline hrest => exact .whitespace hcovers hne hinline hrest hready.gap hmore
  | lineComment hstart hunbroken hrest => exact .lineComment hcovers hstart hunbroken (hline hrest) hmore
  | blockComment hbody =>
    refine .blockComment hcovers hbody ?_ hmore
    rintro rfl
    cases hrun
    exact ⟨rfl, hstop⟩
  | directive hstart hunbroken hrest htrack =>
    exact .directive hcovers hunbroken (hready.lineFront_of_sign hstart rfl) (hline hrest) hmore
  | disabling hstart hunbroken hrest htrack hskips =>
    have hfront := hready.lineFront_of_sign hstart rfl
    rcases skips_cases hrest hskips with ⟨rfl, rfl, rfl⟩ | ⟨hform, hclean⟩
    · exact .directive hcovers hunbroken hfront (hline (by simp)) hmore
    have hbreak := Text.ne_nil_of_mem_breakForms hform
    dsimp only at hmore ⊢
    rw [Conditional.optionalPiece, if_neg hbreak] at hmore ⊢
    refine .disabling hunbroken hfront hskips hform hclean hcovers (hrun.resumes hstop hstart hskips.ofLine?_ne_none) ?_
    rwa [List.append_assoc, List.append_assoc]

private theorem Run.allFit (hrun : Run state text pieces last left) (hstop : Stops last left token)
    (hready : Ready state before text) : AllFit token left before pieces := by
  induction hrun generalizing before with
  | stay => trivial
  | step hread hrun ih =>
    have hreads := readTrivia_eq_some_iff.mp hread
    exact hreads.allFit hready hrun hstop (ih hstop (hreads.ready hready))

/-- The trivia of every text and its token go by the rules for their kinds. No white space is next to white space. -/
theorem read_isGrammatical (text : Text) : IsGrammatical text (read text).1 (read text).2 := by
  obtain ⟨last, left, hrun, hstop⟩ := exists_run {} text
  have hcovers := hrun.tiles.covers
  have hallFit := hrun.allFit hstop (Ready.start text)
  have hread : readOn {} text = read text := rfl
  rw [hread] at hcovers hallFit
  have hfits : ∀ before piece behind, (read text).1 = before ++ piece :: behind →
      Fits before piece behind (read text).2 (Trivia.texts behind ++ left) := by
    intro before piece behind hpieces
    rw [hpieces] at hallFit
    exact hallFit.fits
  constructor
  · intro before piece behind hpieces
    refine ⟨_, ?_, hfits before piece behind hpieces⟩
    rw [← hcovers, hpieces, Trivia.texts_append, Trivia.texts_cons, List.append_assoc, List.append_assoc]
  · rintro before ⟨_, gap⟩ ⟨_, next⟩ behind hpieces ⟨rfl, rfl⟩
    -- The first of the two would end before a blank that the second begins with.
    obtain ⟨-, -, -, -, hhead⟩ := hfits _ _ _ hpieces
    obtain ⟨-, hne, hinline, -⟩ := hfits (before ++ [⟨.whitespace, gap⟩]) ⟨.whitespace, next⟩ behind
      (by rw [hpieces, List.append_cons])
    obtain ⟨c, next, rfl⟩ := List.exists_cons_of_ne_nil hne
    have hc : Text.isInlineBlank c = true := hinline c List.mem_cons_self
    simp [hhead c rfl] at hc

end SourceOrigin.Lexer
