import SourceOrigin.Source.Unit

/-! Runs of the lexer: the steps that it takes over a text, and what they leave. Reading a text is the
longest run over it, so a fact about single steps is carried to whole readings by induction on runs. -/
namespace SourceOrigin.Lexer
variable {state middle last : State} {text between left : Text} {pieces more : List Trivia}

abbrev Reading := List Trivia × Option Text

abbrev readOn (state : State) (text : Text) : Reading := readFrom state [] text

def Reading.andThen (first next : Reading) : Reading :=
  match first.2 with
  | none => (first.1 ++ next.1, next.2)
  | some _ => first

@[simp] theorem Reading.nil_andThen (next : Reading) : Reading.andThen ([], none) next = next := rfl

@[simp] theorem Reading.andThen_nil (pieces : List Trivia) :
    Reading.andThen (pieces, none) ([], none) = (pieces, none) := by
  simp [Reading.andThen]

theorem Reading.append_andThen (pieces more : List Trivia) (next : Reading) :
    Reading.andThen (pieces ++ more, none) next =
      Reading.andThen (pieces, none) (Reading.andThen (more, none) next) := by
  simp [Reading.andThen]

/-- The lexer goes by steps from the first state and text to the last ones, and reads the pieces. -/
inductive Run : State → Text → List Trivia → State → Text → Prop where
  | stay (state : State) (text : Text) : Run state text [] state text
  | step {state last : State} {first : Char} {rest left : Text} {step : Step} {pieces : List Trivia} :
      readTrivia state first rest = some step → Run step.state step.rest pieces last left →
      Run state (first :: rest) (step.pieces ++ pieces) last left

namespace Run

theorem single {first : Char} {rest : Text} {step : Step}
    (h : readTrivia state first rest = some step) :
    Run state (first :: rest) step.pieces step.state step.rest := by
  simpa using Run.step h (.stay _ _)

theorem append (h : Run state text pieces middle between) (h' : Run middle between more last left) :
    Run state text (pieces ++ more) last left := by
  induction h with
  | stay state text => exact h'
  | step hstep _ ih =>
    rw [List.append_assoc]
    exact .step hstep (ih h')

end Run

private theorem readFrom_cons (state : State) (done : List Trivia) (first : Char) (rest : Text) :
    readFrom state done (first :: rest) =
      match readTrivia state first rest with
      | none => (done.reverse, some ((first :: rest).takeWhile (!Text.isBlank ·)))
      | some step => readFrom step.state (step.pieces.reverse ++ done) step.rest := by
  rw [readFrom]
  split <;> simp_all

private theorem readFrom_done (state : State) (done : List Trivia) (text : Text) :
    readFrom state done text = (done.reverse ++ (readOn state text).1, (readOn state text).2) := by
  induction h : text.length using Nat.strongRecOn generalizing state done text with
  | _ n ih =>
    subst h
    cases text with
    | nil => simp [readOn, readFrom]
    | cons first rest =>
      rw [readOn, readFrom_cons state done, readFrom_cons state []]
      cases hread : readTrivia state first rest with
      | none => simp
      | some step =>
        have hlt := length_readTrivia_lt hread
        dsimp only
        rw [ih _ hlt step.state (step.pieces.reverse ++ done) step.rest rfl,
          ih _ hlt step.state (step.pieces.reverse ++ []) step.rest rfl]
        simp

@[simp] theorem readOn_nil (state : State) : readOn state [] = ([], none) := by
  simp [readOn, readFrom]

/-- Where no trivia starts, a token does. -/
theorem readOn_token {first : Char} {rest : Text} (h : readTrivia state first rest = none) :
    readOn state (first :: rest) = ([], some ((first :: rest).takeWhile (!Text.isBlank ·))) := by
  rw [readOn, readFrom_cons, h]
  rfl

private theorem readOn_step {first : Char} {rest : Text} {step : Step}
    (h : readTrivia state first rest = some step) :
    readOn state (first :: rest) =
      Reading.andThen (step.pieces, none) (readOn step.state step.rest) := by
  rw [readOn, readFrom_cons, h]
  dsimp only
  rw [readFrom_done]
  simp [Reading.andThen]

/-- Reading goes on behind a run as if the lexer started there in the state that the run ends in. -/
theorem Run.readOn_eq (h : Run state text pieces last left) :
    readOn state text = Reading.andThen (pieces, none) (readOn last left) := by
  induction h with
  | stay state text => rfl
  | step hstep _ ih => rw [readOn_step hstep, ih, Reading.append_andThen]

/-- A run is at its end: nothing is left, or a token starts. The token is the one that reading finds. -/
def Stops (last : State) : Text → Option Text → Prop
  | [], token => token = none
  | first :: rest, token =>
    readTrivia last first rest = none ∧ token = some ((first :: rest).takeWhile (!Text.isBlank ·))

/-- A run that stops has read what there is to read. -/
theorem Run.readOn_of_stops {token : Option Text} (h : Run state text pieces last left) (hstop : Stops last left token) :
    readOn state text = (pieces, token) := by
  cases left with
  | nil =>
    obtain rfl : token = none := hstop
    rw [h.readOn_eq, readOn_nil, Reading.andThen_nil]
  | cons first rest =>
    rw [h.readOn_eq, readOn_token hstop.1, ← hstop.2]
    simp [Reading.andThen]

theorem exists_run (state : State) (text : Text) : ∃ last left,
    Run state text (readOn state text).1 last left ∧ Stops last left (readOn state text).2 := by
  induction h : text.length using Nat.strongRecOn generalizing state text with
  | _ n ih =>
    subst h
    cases text with
    | nil => exact ⟨state, [], by simpa using Run.stay state [], by simp [Stops]⟩
    | cons first rest =>
      cases hread : readTrivia state first rest with
      | none =>
        rw [readOn_token hread]
        exact ⟨state, first :: rest, .stay _ _, hread, rfl⟩
      | some step =>
        obtain ⟨last, left, hrun, hstop⟩ := ih _ (length_readTrivia_lt hread) step.state step.rest rfl
        rw [readOn_step hread]
        exact ⟨last, left, .step hread hrun, hstop⟩

end SourceOrigin.Lexer
