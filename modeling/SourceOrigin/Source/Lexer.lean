import SourceOrigin.Source.Trivia
import SourceOrigin.Source.Directive

/-! The lexer of leading trivia: it cuts a text into the trivia before its first token and the text of
that token, and looks at nothing behind it. -/
namespace SourceOrigin.Lexer

/-- What the lexer remembers: whether a directive may start here, and the conditionals open here,
innermost first. -/
structure State where
  atLineStart : Bool := true
  conditionals : List Condition := []
  deriving DecidableEq, Repr

structure Step where
  pieces : List Trivia
  rest : Text
  state : State

/-- Number of characters up to the end of the first comment closer, added to `before`; all of them if
the comment is not closed. -/
def closerEnd (before : Nat) : Text → Nat
  | '*' :: '/' :: _ => before + 2
  | _ :: rest => closerEnd (before + 1) rest
  | [] => before

/-- A line comment runs to the end of its line. Exactly three slashes make it documentation. -/
def readLineComment (state : State) (text : Text) : Step :=
  let isDoc := Text.startsWith "///".toList text && !Text.startsWith "////".toList text
  let kind := if isDoc then .lineDocComment else .lineComment
  ⟨[⟨kind, Text.lineAt text⟩], Text.afterLine text, state⟩

/-- A block comment runs to the first closer behind its opener. A second star makes it documentation,
unless the comment ends there. No directive may follow on the line. -/
def readBlockComment (state : State) (text : Text) : Step :=
  let isDoc := Text.startsWith "/**".toList text && !Text.startsWith "/**/".toList text
  let kind := if isDoc then .blockDocComment else .blockComment
  let length := closerEnd 2 (text.drop 2)
  ⟨[⟨kind, text.take length⟩], text.drop length, { state with atLineStart := false }⟩

def readDisabled (toAlternative : Bool) (text : Text) : List Trivia × Text :=
  let lines := Text.afterBreak text
  let length := disabledLength toAlternative 0 0 lines
  let layout := if Text.breakAt text = [] then [] else [⟨.endOfLine, Text.breakAt text⟩]
  let disabled := if length = 0 then [] else [⟨.disabledText, lines.take length⟩]
  (layout ++ disabled, lines.drop length)

def readDirective (state : State) (text : Text) : Step :=
  let line := Text.lineAt text
  let rest := Text.afterLine text
  let (conditionals, continuation) :=
    Directive.track (Directive.ofText (line.drop 1)) state.conditionals
  let state := { state with conditionals }
  match continuation with
  | .live => ⟨[⟨.directive, line⟩], rest, state⟩
  | .disabled toAlternative =>
    let (disabled, rest) := readDisabled toAlternative rest
    ⟨⟨.directive, line⟩ :: disabled, rest, state⟩

/-- Reads the trivia at the front of a text that starts with the given character; `none` if a token
starts there. -/
def readTrivia (state : State) (first : Char) (rest : Text) : Option Step :=
  let text := first :: rest
  if Text.isBreak first then
    some ⟨[⟨.endOfLine, Text.breakAt text⟩], Text.afterBreak text,
      { state with atLineStart := true }⟩
  else if Text.isBlank first then
    some ⟨[⟨.whitespace, text.takeWhile Text.isInlineBlank⟩], text.dropWhile Text.isInlineBlank, state⟩
  else if Text.startsWith "//".toList text then some (readLineComment state text)
  else if Text.startsWith "/*".toList text then some (readBlockComment state text)
  else if first = '#' && state.atLineStart then some (readDirective state text)
  else none

private theorem length_dropWhile_lt (p : Char → Bool) (c : Char) (rest : Text) (h : p c) :
    ((c :: rest).dropWhile p).length < (c :: rest).length := by
  have := Text.length_dropWhile_le p rest
  simp only [List.dropWhile_cons, h, if_true, List.length_cons]
  omega

theorem le_closerEnd (before : Nat) (text : Text) : before ≤ closerEnd before text := by
  fun_induction closerEnd before text <;> omega

private theorem length_readDisabled_le (toAlternative : Bool) (text : Text) :
    (readDisabled toAlternative text).2.length ≤ text.length := by
  simp only [readDisabled, List.length_drop]
  omega

private theorem length_readDirective_lt (state : State) (c : Char) (rest : Text)
    (h : Text.isBreak c = false) :
    (readDirective state (c :: rest)).rest.length < (c :: rest).length := by
  have hline := length_dropWhile_lt (!Text.isBreak ·) c rest (by simp [h])
  unfold readDirective
  dsimp only
  split
  · exact hline
  · next toAlternative _ =>
    exact Nat.lt_of_le_of_lt (length_readDisabled_le toAlternative _) hline

theorem length_readTrivia_lt {state : State} {first : Char} {rest : Text} {step : Step}
    (h : readTrivia state first rest = some step) :
    step.rest.length < (first :: rest).length := by
  unfold readTrivia at h
  dsimp only at h
  split at h
  · next hbreak =>
    obtain rfl := Option.some.inj h
    have hpos : 0 < (Text.breakAt (first :: rest)).length := by
      unfold Text.breakAt
      split <;> simp_all
    simp only [List.length_drop, List.length_cons]
    omega
  next hbreak =>
  have hbreak : Text.isBreak first = false := by simpa using hbreak
  split at h
  · next hblank =>
    obtain rfl := Option.some.inj h
    exact length_dropWhile_lt _ _ _ (by simp [Text.isInlineBlank, hblank, hbreak])
  split at h
  · obtain rfl := Option.some.inj h
    exact length_dropWhile_lt (!Text.isBreak ·) _ _ (by simp [hbreak])
  split at h
  · obtain rfl := Option.some.inj h
    have hle := le_closerEnd 2 ((first :: rest).drop 2)
    simp only [readBlockComment, List.length_drop, List.length_cons] at hle ⊢
    omega
  split at h
  · obtain rfl := Option.some.inj h
    exact length_readDirective_lt _ _ _ hbreak
  · simp at h

/-- The trivia read from here on, behind those in `done` (latest first), and the text of the token
after them; `none` if the text holds trivia only. A token's text runs to the next blank. -/
def readFrom (state : State) (done : List Trivia) : Text → List Trivia × Option Text
  | [] => (done.reverse, none)
  | first :: rest =>
    match _h : readTrivia state first rest with
    | none => (done.reverse, some ((first :: rest).takeWhile (!Text.isBlank ·)))
    | some step => readFrom step.state (step.pieces.reverse ++ done) step.rest
termination_by text => text.length
decreasing_by exact length_readTrivia_lt (by assumption)

def read (text : Text) : List Trivia × Option Text := readFrom {} [] text

end SourceOrigin.Lexer
