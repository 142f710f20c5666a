import SourceOrigin.Proofs.Lexer.Run
import SourceOrigin.Proofs.Text.Break

/-! Nothing is lost in lexing: the pieces of trivia and the token tile the front of the text, and no piece
is empty. Every kind of step is shown to tile the text that it starts from; runs inherit it. -/
namespace SourceOrigin

def Trivia.texts (pieces : List Trivia) : Text := pieces.flatMap (·.text)

@[simp] theorem Trivia.texts_nil : Trivia.texts [] = [] := rfl

@[simp] theorem Trivia.texts_cons (piece : Trivia) (pieces : List Trivia) :
    Trivia.texts (piece :: pieces) = piece.text ++ Trivia.texts pieces := rfl

@[simp] theorem Trivia.texts_append (pieces more : List Trivia) :
    Trivia.texts (pieces ++ more) = Trivia.texts pieces ++ Trivia.texts more :=
  List.flatMap_append

/-- The pieces, none of them empty, cover the front of a text and leave the rest. -/
structure Tiles (text : Text) (pieces : List Trivia) (left : Text) : Prop where
  covers : Trivia.texts pieces ++ left = text
  nonempty : ∀ piece ∈ pieces, piece.text ≠ []

namespace Tiles
variable {text between left : Text} {pieces more : List Trivia}

theorem stay (text : Text) : Tiles text [] text := ⟨rfl, by simp⟩

theorem single {kind : TriviaKind} {piece : Text} (h : piece ≠ []) :
    Tiles (piece ++ left) [⟨kind, piece⟩] left :=
  ⟨by simp, by simpa using h⟩

theorem append (h : Tiles text pieces between) (h' : Tiles between more left) :
    Tiles text (pieces ++ more) left := by
  refine ⟨?_, ?_⟩
  · rw [Trivia.texts_append, List.append_assoc, h'.covers, h.covers]
  · intro piece hpiece
    rcases List.mem_append.mp hpiece with hpiece | hpiece
    · exact h.nonempty piece hpiece
    · exact h'.nonempty piece hpiece

private theorem optional (kind : TriviaKind) (piece left : Text) :
    Tiles (piece ++ left) (if piece = [] then [] else [⟨kind, piece⟩]) left := by
  split
  · next h => simpa [h] using stay left
  · next h => exact single h

end Tiles

namespace Text

private theorem lineAt_ne_nil {c : Char} (h : isBreak c = false) (rest : Text) : lineAt (c :: rest) ≠ [] := by
  simp [lineAt, h]

end Text

namespace Lexer
variable {state last : State} {first : Char} {text rest left : Text} {pieces : List Trivia}

private theorem tiles_line (kind : TriviaKind) (h : Text.isBreak first = false) :
    Tiles (first :: rest) [⟨kind, Text.lineAt (first :: rest)⟩] (Text.afterLine (first :: rest)) := by
  have htiles : Tiles (Text.lineAt (first :: rest) ++ Text.afterLine (first :: rest))
      [⟨kind, Text.lineAt (first :: rest)⟩] (Text.afterLine (first :: rest)) :=
    .single (Text.lineAt_ne_nil h rest)
  rwa [Text.lineAt_append_afterLine] at htiles

private theorem tiles_take (kind : TriviaKind) {length : Nat} (h : 0 < length) :
    Tiles (first :: rest) [⟨kind, (first :: rest).take length⟩] ((first :: rest).drop length) := by
  have hpiece : (first :: rest).take length ≠ [] := by
    simp only [ne_eq, List.take_eq_nil_iff, List.cons_ne_nil, or_false]
    omega
  have htiles : Tiles ((first :: rest).take length ++ (first :: rest).drop length)
      [⟨kind, (first :: rest).take length⟩] ((first :: rest).drop length) := .single hpiece
  rwa [List.take_append_drop] at htiles

theorem tiles_readDisabled (toAlternative : Bool) (text : Text) :
    Tiles text (readDisabled toAlternative text).1 (readDisabled toAlternative text).2 := by
  have hbreak := Tiles.optional .endOfLine (Text.breakAt text) (Text.afterBreak text)
  rw [Text.breakAt_append_afterBreak] at hbreak
  refine hbreak.append ?_
  change Tiles (Text.afterBreak text)
    (if disabledLength toAlternative 0 0 (Text.afterBreak text) = 0 then [] else _)
    ((Text.afterBreak text).drop (disabledLength toAlternative 0 0 (Text.afterBreak text)))
  cases Text.afterBreak text with
  | nil => simpa [disabledLength] using Tiles.stay []
  | cons first rest =>
    split
    · next hzero => simpa [hzero] using Tiles.stay (first :: rest)
    · next hpos => exact tiles_take _ (Nat.pos_of_ne_zero hpos)

private theorem tiles_readDirective (state : State) (h : Text.isBreak first = false) :
    Tiles (first :: rest) (readDirective state (first :: rest)).pieces
      (readDirective state (first :: rest)).rest := by
  have hline : Tiles (first :: rest) [⟨.directive, Text.lineAt (first :: rest)⟩]
      (Text.afterLine (first :: rest)) := tiles_line .directive h
  unfold readDirective
  dsimp only
  split
  · exact hline
  · exact hline.append (tiles_readDisabled _ _)

theorem tiles_readTrivia {step : Step} (h : readTrivia state first rest = some step) :
    Tiles (first :: rest) step.pieces step.rest := by
  unfold readTrivia at h
  dsimp only at h
  split at h
  · next hbreak =>
    obtain rfl := Option.some.inj h
    have htiles : Tiles (Text.breakAt (first :: rest) ++ Text.afterBreak (first :: rest))
        [⟨.endOfLine, Text.breakAt (first :: rest)⟩] (Text.afterBreak (first :: rest)) :=
      .single (Text.breakAt_ne_nil hbreak rest)
    rwa [Text.breakAt_append_afterBreak] at htiles
  next hbreak =>
  have hbreak : Text.isBreak first = false := by simpa using hbreak
  split at h
  · next hblank =>
    obtain rfl := Option.some.inj h
    have hrun : (first :: rest).takeWhile Text.isInlineBlank ≠ [] := by
      simp [Text.isInlineBlank, hblank, hbreak]
    have htiles : Tiles ((first :: rest).takeWhile Text.isInlineBlank ++
        (first :: rest).dropWhile Text.isInlineBlank)
        [⟨.whitespace, (first :: rest).takeWhile Text.isInlineBlank⟩]
        ((first :: rest).dropWhile Text.isInlineBlank) := .single hrun
    rwa [List.takeWhile_append_dropWhile] at htiles
  split at h
  · obtain rfl := Option.some.inj h
    exact tiles_line _ hbreak
  split at h
  · obtain rfl := Option.some.inj h
    exact tiles_take _ (Nat.lt_of_lt_of_le Nat.zero_lt_two (le_closerEnd 2 _))
  split at h
  · obtain rfl := Option.some.inj h
    exact tiles_readDirective state hbreak
  · simp at h

theorem Run.tiles (h : Run state text pieces last left) : Tiles text pieces left := by
  induction h with
  | stay state text => exact .stay text
  | step hstep _ ih => exact (tiles_readTrivia hstep).append ih

/-- A token starts with a character that is not blank. -/
theorem not_isBlank_of_readTrivia (h : readTrivia state first rest = none) :
    Text.isBlank first = false := by
  cases hblank : Text.isBlank first with
  | false => rfl
  | true => cases hbreak : Text.isBreak first <;> simp [readTrivia, hblank, hbreak] at h

theorem Stops.left_eq_nil (h : Stops last left none) : left = [] := by
  cases left with
  | nil => rfl
  | cons first rest => simp [Stops] at h

/-- A run that stops at a token stops at its text, which ends at the next blank. -/
theorem Stops.token {token : Text} (h : Stops last left (some token)) :
    token ≠ [] ∧ (∀ c ∈ token, Text.isBlank c = false) ∧
      ∃ behind, token ++ behind = left ∧ ∀ c ∈ behind.head?, Text.isBlank c = true := by
  cases left with
  | nil => simp [Stops] at h
  | cons first rest =>
    obtain ⟨hread, htoken⟩ := h
    obtain rfl := Option.some.inj htoken
    refine ⟨?_, ?_, (first :: rest).dropWhile (!Text.isBlank ·), ?_, ?_⟩
    · simp [not_isBlank_of_readTrivia hread]
    · intro c hc
      simpa using List.mem_takeWhile_imp hc
    · exact List.takeWhile_append_dropWhile
    · intro c hc
      simpa using Text.head?_dropWhile (first :: rest) c hc

end Lexer

/-- The trivia of a unit are those of a run over its text, which stops at the first token or at the end. -/
theorem SourceUnit.exists_run (text : Text) (path : Option Text) :
    ∃ last left, Lexer.Run {} (withoutMark text) (ofText text path).firstTokenOrEnd.leadingTrivia last left ∧
      Lexer.Stops last left ((ofText text path).firstToken.map (·.text)) := by
  obtain ⟨last, left, hrun, hstop⟩ := Lexer.exists_run {} (withoutMark text)
  have hread : Lexer.readOn {} (withoutMark text) = Lexer.read (withoutMark text) := rfl
  rw [hread] at hrun hstop
  refine ⟨last, left, ?_⟩
  unfold ofText
  dsimp only
  cases hpieces : Lexer.read (withoutMark text) with
  | mk trivia token =>
    rw [hpieces] at hrun hstop
    cases token with
    | none => exact ⟨hrun, hstop⟩
    | some token => exact ⟨hrun, hstop⟩

/-- Lexing is a finite run of steps that loses nothing. The trivia, and the token behind them if there is
one, spell out the text up to the end of the token; the token is not empty, holds no blank, and ends at a
blank or at the end of the text. No piece of trivia is empty. -/
theorem SourceUnit.ofText_tiles (text : Text) (path : Option Text) :
    let unit := SourceUnit.ofText text path
    let trivia := unit.firstTokenOrEnd.leadingTrivia
    (∃ last left, Lexer.Run {} (withoutMark text) trivia last left ∧
      Lexer.Stops last left (unit.firstToken.map (·.text))) ∧
    (∀ piece ∈ trivia, piece.text ≠ []) ∧
    match unit.firstToken with
    | none => Trivia.texts unit.endOfFile.leadingTrivia = withoutMark text
    | some token =>
      unit.endOfFile.leadingTrivia = [] ∧ token.text ≠ [] ∧
      (∀ c ∈ token.text, Text.isBlank c = false) ∧
      ∃ behind, Trivia.texts token.leadingTrivia ++ token.text ++ behind = withoutMark text ∧
        ∀ c ∈ behind.head?, Text.isBlank c = true := by
  obtain ⟨last, left, hrun, hstop⟩ := Lexer.exists_run {} (withoutMark text)
  have htiles := hrun.tiles
  have hread : Lexer.readOn {} (withoutMark text) = Lexer.read (withoutMark text) := rfl
  rw [hread] at hrun hstop htiles
  unfold SourceUnit.ofText
  dsimp only
  cases hpieces : Lexer.read (withoutMark text) with
  | mk trivia token =>
    rw [hpieces] at hrun hstop htiles
    cases token with
    | none =>
      refine ⟨⟨last, left, hrun, hstop⟩, htiles.nonempty, ?_⟩
      simpa [hstop.left_eq_nil] using htiles.covers
    | some token =>
      obtain ⟨hne, hblank, behind, hleft, hhead⟩ := hstop.token
      refine ⟨⟨last, left, hrun, hstop⟩, htiles.nonempty, rfl, hne, hblank, behind, ?_, hhead⟩
      rw [List.append_assoc, hleft]
      exact htiles.covers

end SourceOrigin
