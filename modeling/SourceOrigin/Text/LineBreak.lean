import SourceOrigin.Text.Blank

/-! Line breaks: the six forms, the cut of a text at its first break, and one form for the three that
are made of carriage returns and line feeds. -/
namespace SourceOrigin.Text

/-- The characters that break a line when they stand alone: line feed, carriage return, next line,
line separator and paragraph separator. -/
def isBreak (c : Char) : Bool :=
  c = '\n' || c = '\r' || c = '\u0085' || c = '\u2028' || c = '\u2029'

def isInlineBlank (c : Char) : Bool := isBlank c && !isBreak c

/-- The line break at the front of the text, empty if there is none. A carriage return takes the
line feed after it along. -/
def breakAt : Text → Text
  | '\r' :: '\n' :: _ => ['\r', '\n']
  | c :: _ => if isBreak c then [c] else []
  | [] => []

abbrev lineAt (text : Text) : Text := text.takeWhile (!isBreak ·)

abbrev afterLine (text : Text) : Text := text.dropWhile (!isBreak ·)

abbrev afterBreak (text : Text) : Text := text.drop (breakAt text).length

theorem breakAt_append_afterBreak (text : Text) : breakAt text ++ afterBreak text = text := by
  unfold afterBreak breakAt
  split
  · rfl
  · split <;> rfl
  · rfl

def unifyOnto (done : Text) : Text → Text
  | [] => done.reverse
  | '\r' :: '\n' :: rest => unifyOnto ('\n' :: done) rest
  | c :: rest => unifyOnto ((if c = '\r' then '\n' else c) :: done) rest

/-- Every carriage return, with the line feed after it if there is one, becomes one line feed. The
other line breaks stay. -/
def unifyBreaks (text : Text) : Text := unifyOnto [] text

private theorem unifyOnto_eq (text done : Text) :
    unifyOnto done text = done.reverse ++ unifyOnto [] text := by
  induction h : text.length using Nat.strongRecOn generalizing text done with
  | _ n ih =>
    subst h
    rw [unifyOnto.eq_def done text, unifyOnto.eq_def [] text]
    split
    · simp
    · next rest =>
      have hlt : rest.length < ('\r' :: '\n' :: rest).length := by simp only [List.length_cons]; omega
      rw [ih _ hlt rest ('\n' :: done) rfl, ih _ hlt rest ['\n'] rfl]
      simp
    · next c rest _ =>
      have hlt : rest.length < (c :: rest).length := Nat.lt_succ_self _
      rw [ih _ hlt rest (_ :: done) rfl, ih _ hlt rest [_] rfl]
      simp

theorem unifyBreaks_nil : unifyBreaks [] = [] := rfl

theorem unifyBreaks_return_feed (rest : Text) :
    unifyBreaks ('\r' :: '\n' :: rest) = '\n' :: unifyBreaks rest :=
  unifyOnto_eq rest ['\n']

theorem unifyBreaks_cons (c : Char) (rest : Text) (h : c = '\r' → rest.head? ≠ some '\n') :
    unifyBreaks (c :: rest) = (if c = '\r' then '\n' else c) :: unifyBreaks rest := by
  unfold unifyBreaks
  rw [unifyOnto, unifyOnto_eq]
  · rfl
  · rintro r rfl rfl
    exact h rfl rfl

end SourceOrigin.Text
