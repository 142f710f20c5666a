import SourceOrigin.Proofs.Session.History

/-! The work on one file, with and without a cancellation. As long as no poll stops it, a worker does step by step what
`Session.processFile` does under a token that never trips; a poll that stops it leaves the session as it was before the
file, or with the file loaded and not classified. -/
namespace SourceOrigin

namespace CancellationToken

/-- The token is not cancelled, and no poll will cancel it. -/
structure NeverTrips (token : CancellationToken) : Prop where
  cancelled : token.cancelled = false
  countdown : token.countdown = none

theorem NeverTrips.poll {token : CancellationToken} (h : token.NeverTrips) : token.poll.NeverTrips :=
  ⟨by simp [CancellationToken.poll, h.cancelled, h.countdown], h.countdown⟩

end CancellationToken

private theorem neverTrips_classifyBy (config : Config) (tree : SyntaxTree) {token : CancellationToken}
    (h : token.NeverTrips)
    (pending : List Heuristic) : (classifyBy config tree token pending).token.NeverTrips := by
  induction pending generalizing token with
  | nil => exact h
  | cons heuristic rest ih =>
    rw [classifyBy]
    simp only [h.poll.cancelled, Bool.false_eq_true, if_false]
    cases heuristic.holds config tree with
    | error error => exact h.poll
    | ok sign =>
      cases sign with
      | true => exact h.poll
      | false => exact ih h.poll

private theorem outcomeBy_ne_cancelled (config : Config) (tree : SyntaxTree) (pending : List Heuristic) :
    outcomeBy config tree pending ≠ .error .cancelled := by
  induction pending with
  | nil => simp [outcomeBy]
  | cons heuristic rest ih =>
    rw [outcomeBy]
    cases heuristic.holds config tree with
    | error error => simp
    | ok sign =>
      cases sign with
      | true => simp
      | false => exact ih

namespace Session
variable {files : FileTree} {session loaded before : Session} {document : Document UnitId}

def under (session : Session) (token : CancellationToken) : Session := { session with token }

def missed (session : Session) : Session := { session with cache := session.cache.recordLookup false }

theorem load_under (session : Session) (files : FileTree) (path : Path) (token : CancellationToken) :
    (session.under token).load files path =
      { session.load files path with session := (session.load files path).session.under token } := by
  unfold load
  split <;> rfl

/-- Loading changes no more of a session than its table of units. -/
theorem session_load (session : Session) (files : FileTree) (path : Path) :
    (session.load files path).session = { session with units := (session.load files path).session.units } := by
  unfold load
  split <;> rfl

theorem neverTrips_load (h : session.token.NeverTrips) (files : FileTree) (path : Path) :
    (session.load files path).session.token.NeverTrips := by
  rw [session_load]
  exact h

/-- The error of loading is none of classifying. -/
theorem ne_classify_of_load {path : Path} {error : SessionError} (h : (session.load files path).outcome = .error error)
    (reason : ClassifyError) : error ≠ .classify reason := by
  rintro rfl
  unfold load at h
  split at h
  · simp at h
  dsimp only at h
  cases hloaded : (session.units.load files session.config.sourceEncoding (files.resolve path)).2 with
  | ok unit => simp [hloaded] at h
  | error error => simp [hloaded] at h

theorem under_eq {other : Session} (h : session = other.under session.token) (token : CancellationToken) :
    session.under token = other.under (session.under token).token := by
  rw [h]
  rfl

/-! ### A call for a verdict -/

/-- The session after a classification without a stored verdict: the one it comes to is stored. -/
def settled (session : Session) (name : UnitId) : Except ClassifyError Bool → Session
  | .ok verdict => { session with cache := (session.missed.cache.tryAdd name verdict).1 }
  | .error _ => session.missed

/-- Without a stored verdict and with nobody to stop it, a classification comes to what the heuristics say. -/
theorem classify_of_miss (htoken : session.token.NeverTrips) (h : session.cache.get? document.name = none) :
    let outcome := outcomeBy session.config document.tree Heuristic.all
    (session.classify (some document)).outcome = outcome.mapError .classify ∧
      ∃ token, token.NeverTrips ∧
        (session.classify (some document)).session = (session.settled document.name outcome).under token := by
  have houtcome := outcome_classifyBy session.config document.tree htoken.cancelled htoken.countdown Heuristic.all
  have hfinal := neverTrips_classifyBy session.config document.tree htoken Heuristic.all
  rw [classify_of_unstored h, SourceOrigin.classify]
  rcases hdone : classifyBy session.config document.tree session.token Heuristic.all with ⟨outcome, token, log⟩
  rw [hdone] at houtcome hfinal
  dsimp only at houtcome hfinal
  rw [← houtcome]
  cases outcome with
  | error error => exact ⟨rfl, token, hfinal, rfl⟩
  | ok verdict =>
    rcases hadd : (session.cache.recordLookup false).tryAdd document.name verdict with ⟨cache, _ | _⟩
    all_goals
      simp only [Cache.commit, hadd, settled, missed]
      exact ⟨rfl, token, hfinal, rfl⟩

/-- Under a token that never trips a classification is not cancelled, and leaves such a token. -/
theorem classify_of_neverTrips (h : session.token.NeverTrips) (document : Document UnitId) :
    (session.classify (some document)).session.token.NeverTrips ∧
      (session.classify (some document)).outcome ≠ .error (.classify .cancelled) := by
  cases hfound : session.cache.get? document.name with
  | some verdict =>
    rw [classify_of_hit hfound]
    exact ⟨h, by simp⟩
  | none =>
    obtain ⟨houtcome, token, htoken, hsettled⟩ := classify_of_miss h hfound
    have hnever := outcomeBy_ne_cancelled session.config document.tree Heuristic.all
    rw [houtcome, hsettled]
    refine ⟨htoken, ?_⟩
    rcases hheuristics : outcomeBy session.config document.tree Heuristic.all with error | verdict
    · rw [hheuristics] at hnever
      simpa using hnever
    · simp

/-- How far a call for a verdict has come since it was made in the session `loaded`, if no poll has stopped it. -/
def Pursues (loaded : Session) (document : Document UnitId) (session : Session) : CallStage → Prop
  | .lookup => session = loaded.under session.token
  | .recording found => session = loaded.under session.token ∧ found = loaded.cache.get? document.name
  | .checking pending => session = loaded.missed.under session.token ∧ loaded.cache.get? document.name = none ∧
      outcomeBy loaded.config document.tree pending = outcomeBy loaded.config document.tree Heuristic.all
  | .committing verdict => session = loaded.missed.under session.token ∧ loaded.cache.get? document.name = none ∧
      outcomeBy loaded.config document.tree Heuristic.all = .ok verdict
  | .finished outcome => session = (loaded.classify (some document)).session.under session.token ∧
      outcome.mapError .classify = (loaded.classify (some document)).outcome

private theorem pursues_settled (htoken : loaded.token.NeverTrips) (hunstored : loaded.cache.get? document.name = none)
    {outcome : Except ClassifyError Bool} (houtcome : outcomeBy loaded.config document.tree Heuristic.all = outcome)
    (token : CancellationToken) :
    loaded.Pursues document ((loaded.settled document.name outcome).under token) (.finished outcome) := by
  obtain ⟨hresult, final, -, hsettled⟩ := classify_of_miss htoken hunstored
  rw [houtcome] at hresult hsettled
  refine ⟨?_, hresult.symm⟩
  rw [hsettled]
  rfl

/-- A poll has stopped the call, and it has done no more than to look for a verdict and not to find one. -/
structure Abandons (loaded : Session) (document : Document UnitId) (session : Session) : Prop where
  unstored : loaded.cache.get? document.name = none
  missed : session = loaded.missed.under session.token
  cancelled : session.token.cancelled = true

/-- One step of a call brings it further, or a poll stops it. -/
theorem Pursues.step (htoken : loaded.token.NeverTrips) {stage : CallStage} (h : loaded.Pursues document session stage) :
    let call := (Call.step session.config session.cache ⟨some document, session.token, stage⟩).2.1
    loaded.Pursues document (session.afterStep document stage) call.stage ∨
      call.stage = .finished (.error .cancelled) ∧ loaded.Abandons document (session.afterStep document stage) := by
  cases stage with
  | lookup =>
    obtain ⟨token, rfl⟩ : ∃ token, session = loaded.under token := ⟨_, h⟩
    exact .inl ⟨rfl, rfl⟩
  | recording found =>
    obtain ⟨hsession, hfound⟩ := h
    obtain ⟨token, rfl⟩ : ∃ token, session = loaded.under token := ⟨_, hsession⟩
    cases found with
    | none => exact .inl ⟨rfl, hfound.symm, rfl⟩
    | some verdict =>
      refine .inl ⟨?_, ?_⟩
      · rw [classify_of_hit hfound.symm]
        rfl
      · rw [classify_of_hit hfound.symm]
        rfl
  | checking pending =>
    obtain ⟨hsession, hunstored, hpending⟩ := h
    obtain ⟨token, rfl⟩ : ∃ token, session = loaded.missed.under token := ⟨_, hsession⟩
    cases pending with
    | nil => exact .inl ⟨rfl, hunstored, hpending.symm⟩
    | cons heuristic rest =>
      have hsame : (loaded.missed.under token).token = token := rfl
      simp only [Call.step, afterStep, hsame]
      by_cases hcancelled : token.poll.cancelled = true
      · simp only [hcancelled, if_true]
        exact .inr ⟨trivial, hunstored, rfl, hcancelled⟩
      simp only [hcancelled, Bool.false_eq_true, if_false]
      have hconfig : (loaded.missed.under token).config = loaded.config := rfl
      rw [outcomeBy] at hpending
      rw [hconfig]
      cases hsign : heuristic.holds loaded.config document.tree with
      | error error =>
        rw [hsign] at hpending
        exact .inl (pursues_settled htoken hunstored hpending.symm token.poll)
      | ok sign =>
        rw [hsign] at hpending
        cases sign with
        | true => exact .inl ⟨rfl, hunstored, hpending.symm⟩
        | false => exact .inl ⟨rfl, hunstored, hpending⟩
  | committing verdict =>
    obtain ⟨hsession, hunstored, hverdict⟩ := h
    obtain ⟨token, rfl⟩ : ∃ token, session = loaded.missed.under token := ⟨_, hsession⟩
    obtain ⟨hcache, houtcome⟩ := loaded.missed.cache.commit_ok document verdict token []
    have hsame : (loaded.missed.under token).token = token := rfl
    have hfound : (loaded.missed.under token).cache = loaded.missed.cache := rfl
    refine .inl ?_
    simp only [Call.step, afterStep, hsame, hfound, hcache, houtcome]
    exact pursues_settled htoken hunstored hverdict token
  | finished outcome => exact .inl h

end Session

/-! ### A call for a unit -/

namespace LoadCall

private theorem advance_add (files : FileTree) (encodingName : Text) (n m : Nat) (table : UnitTable) (call : LoadCall) :
    advance files encodingName (n + m) table call =
      advance files encodingName m (advance files encodingName n table call).1 (advance files encodingName n table call).2 := by
  induction n generalizing table call with
  | zero => rw [Nat.zero_add]; rfl
  | succ n ih =>
    rw [Nat.add_right_comm]
    exact ih _ _

theorem advance_finished (files : FileTree) (encodingName : Text) (n : Nat) (table : UnitTable) (location : Location)
    (outcome : Except LoadError LoadedUnit) :
    advance files encodingName n table ⟨location, .finished outcome⟩ = (table, ⟨location, .finished outcome⟩) := by
  induction n with
  | zero => rfl
  | succ n ih => exact ih

/-- A call that has come to its end has loaded the unit. -/
theorem load_of_advance {files : FileTree} {encodingName : Text} {n : Nat} {table units : UnitTable}
    {location : Location} {outcome : Except LoadError LoadedUnit}
    (h : advance files encodingName n table ⟨location, .lookup⟩ = (units, ⟨location, .finished outcome⟩)) :
    table.load files encodingName location = (units, outcome) := by
  have hmore := advance_add files encodingName n 3 table ⟨location, .lookup⟩
  rw [h, advance_finished, Nat.add_comm, advance_add, advance_eq_load, advance_finished] at hmore
  obtain ⟨hunits, hcall⟩ := Prod.mk.inj hmore
  exact Prod.ext hunits (LoadStage.finished.inj (LoadCall.mk.inj hcall).2)

end LoadCall

/-! ### A file -/

/-- A poll has stopped the work on a file: nothing has been done with it, or it is loaded and not classified. -/
inductive Session.StoppedAt (files : FileTree) (before : Session) (path : Path) (last : Session) : Prop where
  | unloaded : last = before.under last.token → StoppedAt files before path last
  | unclassified {unit : LoadedUnit} : (before.load files path).outcome = .ok unit →
      before.cache.get? unit.id = none → last = (before.load files path).session.missed.under last.token →
      StoppedAt files before path last

/-- How far a worker has come with a file, if no poll has stopped it since the one at its start left the session
`ready`. -/
def Job.Tracks (files : FileTree) (ready session : Session) (job : Job) : Prop :=
  match job.stage with
  | .starting => session = ready.under session.token
  | .loading stage =>
    files.resolutionError? job.path = none ∧ session = { ready with units := session.units, token := session.token } ∧
      ∃ n, LoadCall.advance files ready.config.sourceEncoding n ready.units ⟨files.resolve job.path, .lookup⟩ =
        (session.units, ⟨files.resolve job.path, stage⟩)
  | .classifying unit stage =>
    (ready.load files job.path).outcome = .ok unit ∧
      (ready.load files job.path).session.Pursues unit.document session stage
  | .finished outcome =>
    session = (ready.classifyPath files job.path).session.under session.token ∧
      outcome = (ready.classifyPath files job.path).outcome
  | _ => False

namespace Job
variable {files : FileTree} {ready session : Session} {job : Job} {path : Path}

private theorem tracks_afterLoading {units : UnitTable} {token : CancellationToken} {stage : LoadStage} {n : Nat}
    (hresolved : files.resolutionError? path = none)
    (h : LoadCall.advance files ready.config.sourceEncoding n ready.units ⟨files.resolve path, .lookup⟩ =
      (units, ⟨files.resolve path, stage⟩)) :
    Tracks files ready { ready with units, token } ⟨path, .afterLoading stage⟩ := by
  cases stage with
  | finished outcome =>
    have hload : (ready.load files path).outcome = outcome.mapError .load ∧
        (ready.load files path).session = { ready with units } := by
      simp [Session.load, hresolved, LoadCall.load_of_advance h]
    obtain ⟨houtcome, hsession⟩ := hload
    cases outcome with
    | ok unit =>
      refine ⟨houtcome, ?_⟩
      rw [hsession]
      rfl
    | error error =>
      obtain ⟨hresult, hlast⟩ := Session.classifyPath_of_error houtcome
      refine ⟨?_, hresult.symm⟩
      rw [hlast, hsession]
      rfl
  | _ => exact ⟨hresolved, rfl, n, h⟩

private theorem tracks_afterClassifying {unit : LoadedUnit} {stage : CallStage}
    (hloaded : (ready.load files path).outcome = .ok unit)
    (h : (ready.load files path).session.Pursues unit.document session stage) :
    Tracks files ready session ⟨path, .afterClassifying unit stage⟩ := by
  cases stage with
  | finished outcome =>
    obtain ⟨houtcome, hsession⟩ := Session.classifyPath_of_unit hloaded
    exact ⟨hsession ▸ h.1, houtcome ▸ h.2⟩
  | _ => exact ⟨hloaded, h⟩

/-- A step of the worker brings the file further, or a poll stops it. -/
theorem Tracks.step (htoken : ready.token.NeverTrips) (h : job.Tracks files ready session) :
    (job.step files session).2.Tracks files ready (job.step files session).1 ∨
      (job.step files session).2.stage = .finished (.error (.classify .cancelled)) ∧
        (job.step files session).1.token.cancelled = true ∧
        ready.StoppedAt files job.path (job.step files session).1 := by
  obtain ⟨path, stage⟩ := job
  cases stage with
  | starting =>
    obtain ⟨token, rfl⟩ : ∃ token, session = ready.under token := ⟨_, h⟩
    have hsame : (ready.under token).token = token := rfl
    simp only [Job.step, hsame]
    by_cases hcancelled : token.poll.cancelled = true
    · rw [if_pos hcancelled]
      exact .inr ⟨rfl, hcancelled, .unloaded rfl⟩
    rw [if_neg hcancelled]
    cases hresolved : files.resolutionError? path with
    | some error =>
      have hload : ready.load files path = ⟨.error (.load error), ready, []⟩ := by rw [Session.load, hresolved]
      obtain ⟨houtcome, hlast⟩ := Session.classifyPath_of_error (congrArg SessionResult.outcome hload)
      refine .inl ⟨?_, houtcome.symm⟩
      rw [hlast, hload]
      rfl
    | none => exact .inl ⟨hresolved, rfl, 0, rfl⟩
  | loading stage =>
    obtain ⟨hresolved, hsession, n, hadvance⟩ := h
    have hnext : LoadCall.advance files ready.config.sourceEncoding (n + 1) ready.units ⟨files.resolve path, .lookup⟩ =
        LoadCall.step files ready.config.sourceEncoding session.units ⟨files.resolve path, stage⟩ := by
      rw [LoadCall.advance_add, hadvance]
      rfl
    rw [hsession]
    left
    simp only [Job.step]
    rw [← Prod.eta (p := LoadCall.step ..), LoadCall.step_eq] at hnext
    exact tracks_afterLoading hresolved hnext
  | classifying unit stage =>
    obtain ⟨hloaded, hpursues⟩ := h
    rcases hpursues.step (Session.neverTrips_load htoken files path) with hnext | ⟨hstage, hunstored, hmissed, hcancelled⟩
    · exact .inl (tracks_afterClassifying hloaded hnext)
    · refine .inr ⟨congrArg (JobStage.afterClassifying unit) hstage, hcancelled, ?_⟩
      rw [ready.session_load files path] at hunstored
      exact .unclassified hloaded hunstored hmissed
  | _ => exact .inl h

theorem Tracks.under (h : job.Tracks files ready session) (token : CancellationToken) :
    job.Tracks files ready (session.under token) := by
  obtain ⟨path, stage⟩ := job
  cases stage with
  | starting => exact Session.under_eq h token
  | loading stage => exact ⟨h.1, congrArg (Session.under · token) h.2.1, h.2.2⟩
  | classifying unit stage =>
    refine ⟨h.1, ?_⟩
    have hpursues := h.2
    cases stage with
    | lookup => exact Session.under_eq hpursues token
    | _ => exact ⟨Session.under_eq hpursues.1 token, hpursues.2⟩
  | finished outcome => exact ⟨Session.under_eq h.1 token, h.2⟩
  | _ => exact h

end Job

end SourceOrigin
