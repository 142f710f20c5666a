import SourceOrigin.Proofs.Session.Processed

/-! Scans of a session that is cancelled. Every worker that takes a file finds the cancellation at its first poll, so nothing
of the session is changed but its token, whatever the schedule and however many workers there are. -/
namespace SourceOrigin

namespace JobStage

def IsPending (token : CancellationToken) : JobStage → Prop
  | waiting => True
  | starting | dropped => token.cancelled = true
  | finished outcome | delivered outcome => outcome = .error (.classify .cancelled) ∧ token.cancelled = true
  | _ => False

theorem IsPending.later {token later : CancellationToken} {stage : JobStage} (h : stage.IsPending token)
    (hlater : token.cancelled = true → later.cancelled = true) : stage.IsPending later := by
  cases stage with
  | waiting => trivial
  | starting => exact hlater h
  | dropped => exact hlater h
  | finished outcome => exact h.imp id hlater
  | delivered outcome => exact h.imp id hlater
  | _ => exact h

theorem IsPending.isWaiting {token : CancellationToken} {stage : JobStage} (h : stage.IsPending token)
    (hopen : token.cancelled ≠ true) : stage.isWaiting = true := by
  cases stage with
  | waiting => rfl
  | starting => exact absurd h hopen
  | dropped => exact absurd h hopen
  | finished outcome => exact absurd h.2 hopen
  | delivered outcome => exact absurd h.2 hopen
  | _ => exact absurd h id

end JobStage

/-- A worker that has taken a pending file finds the session cancelled at its first poll. -/
theorem Job.step_of_isPending (files : FileTree) {session : Session} {job : Job}
    (h : job.stage.IsPending session.token) (hrunning : job.stage.isRunning = true) :
    session.token.cancelled = true ∧ job.step files session =
      (session.under session.token.poll, ⟨job.path, .finished (.error (.classify .cancelled))⟩) := by
  obtain ⟨path, stage⟩ := job
  cases stage with
  | starting => exact ⟨h, if_pos (CancellationToken.cancelled_poll h)⟩
  | loading stage => exact absurd h id
  | classifying unit stage => exact absurd h id
  | _ => simp [JobStage.isRunning] at hrunning

/-- Since the session was cancelled, its token may have been polled and nothing else has been done. -/
structure Session.IsHalted (session now : Session) (jobs : List Job) : Prop where
  cancelled : now.token.cancelled = true
  unchanged : now = session.under now.token
  pending : ∀ job ∈ jobs, job.stage.IsPending now.token

namespace Session
variable {files : FileTree} {session now : Session} {jobs : List Job}

theorem IsHalted.under (h : session.IsHalted now jobs) {token : CancellationToken} (htoken : token.cancelled = true) :
    session.IsHalted (now.under token) jobs :=
  ⟨htoken, under_eq h.unchanged token, fun job hmem => (h.pending job hmem).later fun _ => htoken⟩

theorem IsHalted.set (h : session.IsHalted now jobs) (position : Nat) {new : Job}
    (hnew : new.stage.IsPending now.token) : session.IsHalted now (jobs.set position new) := by
  refine ⟨h.cancelled, h.unchanged, fun job hmem => ?_⟩
  rcases List.mem_or_eq_of_mem_set hmem with hmem | rfl
  · exact h.pending job hmem
  · exact hnew

end Session

namespace Pool
variable {files : FileTree} {units : UnitId → SyntaxTree} {paths : List Path} {session : Session} {pool after : Pool}
  {root : Text}

private theorem isHalted_start (h : session.token.cancelled = true) (paths : List Path) :
    session.IsHalted (start session paths).session (start session paths).jobs := by
  refine ⟨h, rfl, fun job hmem => ?_⟩
  obtain ⟨path, -, rfl⟩ := List.mem_map.mp hmem
  trivial

theorem Moves.isHalted (hmove : pool.Moves files after) (h : session.IsHalted pool.session pool.jobs) :
    session.IsHalted after.session after.jobs := by
  cases hmove with
  | starts hread => exact h.set _ h.cancelled
  | steps hread hrunning =>
    obtain ⟨-, hstep⟩ := Job.step_of_isPending files (h.pending _ (List.mem_of_getElem? hread)) hrunning
    have hpolled : pool.session.token.poll.cancelled = true := CancellationToken.cancelled_poll h.cancelled
    rw [hstep]
    exact (h.under hpolled).set _ ⟨rfl, hpolled⟩
  | collects hopen hread =>
    have hpending := h.pending _ (List.mem_of_getElem? hread)
    exact h.set _ hpending
  | drops hfailure hdropping hread => exact h.set _ h.cancelled
  | cancels hcancelled => exact h.under rfl
  | interrupts hopen => exact h.under rfl

theorem isHalted_run (h : session.token.cancelled = true) (files : FileTree) (paths : List Path)
    (schedule : List PoolEvent) :
    session.IsHalted ((start session paths).run files schedule).session ((start session paths).run files schedule).jobs :=
  run_induction (P := fun pool => session.IsHalted pool.session pool.jobs) (fun hmove h => hmove.isHalted h)
    (isHalted_start h paths) schedule

/-- Where no file has been processed, a scan that has ended and was not interrupted was cancelled. -/
theorem Agrees.outcome_of_isHalted (h : pool.Agrees files paths units)
    (hhalted : session.IsHalted pool.session pool.jobs) (hne : paths ≠ []) (hinterrupted : pool.interrupted = false)
    {outcome : Except SessionError ScanResult} (houtcome : pool.outcome? root = some outcome) :
    outcome = .error (.classify .cancelled) := by
  have hpending {path : Path} {outcome : Except SessionError Bool} (hmem : ⟨path, .delivered outcome⟩ ∈ pool.jobs) :
      outcome = .error (.classify .cancelled) := by
    have hstage := hhalted.pending _ hmem
    exact hstage.1
  obtain ⟨-, ⟨error, hfailure, rfl⟩ | ⟨hopen, hdelivered, -⟩⟩ := outcome?_cases houtcome
  · rcases h.exists_of_failure hfailure with ⟨-, hstopped⟩ | ⟨path, hmem, -⟩
    · simp [hinterrupted] at hstopped
    · exact congrArg Except.error (Except.error.inj (hpending hmem))
  · have hjobs : pool.jobs ≠ [] := by
      intro hnil
      exact hne (h.paths ▸ congrArg (List.map (·.path)) hnil)
    obtain ⟨⟨path, stage⟩, hmem⟩ := List.exists_mem_of_ne_nil _ hjobs
    have hstage := hdelivered _ hmem
    cases stage with
    | delivered outcome =>
      have hopen := h.stop?_eq_none hopen hmem
      simp [hpending hmem, stop?] at hopen
    | _ => simp [JobStage.isDelivered] at hstage

end Pool

end SourceOrigin
