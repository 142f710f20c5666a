import Mathlib.Algebra.GroupWithZero.Nat
import Mathlib.Data.List.Basic
import Mathlib.Tactic.Push
import SourceOrigin.Proofs.Session.Agreement
import SourceOrigin.Proofs.Session.Pool

/-! What one event does to a scan, and that no scan goes on for ever. Every event changes nothing, or uses up work of which
the scan has only so much; and while the scan has no outcome, some event of the workers or of the collecting uses up
work. -/
namespace SourceOrigin

private theorem Job.step_of_not_isRunning (files : FileTree) (session : Session) {job : Job}
    (h : job.stage.isRunning = false) : job.step files session = (session, job) := by
  obtain ⟨path, stage⟩ := job
  cases stage with
  | starting => simp [JobStage.isRunning] at h
  | loading stage => simp [JobStage.isRunning] at h
  | classifying unit stage => simp [JobStage.isRunning] at h
  | _ => rfl

/-- A step polls the token or leaves it as it is. -/
theorem Job.step_token (files : FileTree) (session : Session) (job : Job) :
    (job.step files session).1.token = session.token ∨ (job.step files session).1.token = session.token.poll := by
  obtain ⟨path, stage⟩ := job
  cases stage with
  | starting =>
    simp only [step]
    split
    · exact .inr rfl
    split <;> exact .inr rfl
  | classifying unit stage =>
    exact (Call.step_document_token session.config session.cache ⟨some unit.document, session.token, stage⟩).2
  | _ => exact .inl rfl

/-- A step of the worker keeps the path of the file, and a cancellation. -/
theorem Job.step_path_token (files : FileTree) (session : Session) (job : Job) :
    (job.step files session).2.path = job.path ∧
      (session.token.cancelled = true → (job.step files session).1.token.cancelled = true) := by
  refine ⟨?_, fun hcancelled => ?_⟩
  · obtain ⟨path, stage⟩ := job
    cases stage with
    | starting =>
      simp only [step]
      split
      · rfl
      split <;> rfl
    | _ => rfl
  · rcases job.step_token files session with htoken | htoken
    · rwa [htoken]
    · rw [htoken]
      exact CancellationToken.cancelled_poll hcancelled

namespace Pool

/-- What an event changes: one file comes to another stage, or the scan is stopped from outside. -/
inductive Moves (files : FileTree) (pool : Pool) : Pool → Prop where
  | starts {position : Nat} {path : Path} : pool.jobs[position]? = some ⟨path, .waiting⟩ →
      pool.jobs.findIdx? (·.stage.isWaiting) = some position →
      (pool.jobs.countP (·.stage.isRunning) : Int) < pool.session.config.maxWorkers →
      Moves files pool (pool.put position path .starting)
  | steps {position : Nat} {job : Job} : pool.jobs[position]? = some job → job.stage.isRunning = true →
      Moves files pool { pool with
        session := (job.step files pool.session).1
        jobs := pool.jobs.set position (job.step files pool.session).2 }
  | collects {position : Nat} {path : Path} {outcome : Except SessionError Bool} : pool.failure? = none →
      pool.jobs[position]? = some ⟨path, .finished outcome⟩ →
      Moves files pool { pool.put position path (.delivered outcome) with
        collected := pool.collected ++ [(path, outcome)] }
  | drops {position : Nat} {path : Path} {error : SessionError} : pool.failure? = some error →
      isDropping error = true → pool.jobs[position]? = some ⟨path, .waiting⟩ →
      Moves files pool (pool.put position path .dropped)
  | cancels : pool.session.token.cancelled = false →
      Moves files pool { pool with session := pool.session.cancel.session }
  | interrupts : pool.failure? = none →
      Moves files pool { pool with session := pool.session.cancel.session, interrupted := true }

variable {files : FileTree} {pool after : Pool}

theorem next_start (files : FileTree) {position : Nat}
    (h : pool.jobs.findIdx? (·.stage.isWaiting) = some position) :
    ∃ path, pool.jobs[position]? = some ⟨path, .waiting⟩ ∧
      pool.next files .start =
        if (pool.jobs.countP (·.stage.isRunning) : Int) < pool.session.config.maxWorkers then
          pool.put position path .starting
        else pool := by
  obtain ⟨hlt, hwaiting, -⟩ := List.findIdx?_eq_some_iff_getElem.mp h
  have hread : pool.jobs[position]? = some pool.jobs[position] := List.getElem?_eq_getElem hlt
  rcases hjob : pool.jobs[position] with ⟨path, stage⟩
  obtain rfl : stage = .waiting := by
    rw [hjob] at hwaiting
    cases stage <;> simp [JobStage.isWaiting] at hwaiting ⊢
  refine ⟨path, by rw [hread, hjob], ?_⟩
  simp only [next, h, put, List.modify_eq_set_getElem?, hread, hjob, Option.map_eq_map, Option.map_some,
    Option.getD_some]

theorem next_step {position : Nat} {job : Job} (h : pool.jobs[position]? = some job) :
    pool.next files (.step position) = { pool with
      session := (job.step files pool.session).1
      jobs := pool.jobs.set position (job.step files pool.session).2 } := by
  simp only [next, h]

theorem next_collect (files : FileTree) {position : Nat} {path : Path} {outcome : Except SessionError Bool}
    (hopen : pool.failure? = none) (h : pool.jobs[position]? = some ⟨path, .finished outcome⟩) :
    pool.next files (.collect position) =
      { pool.put position path (.delivered outcome) with collected := pool.collected ++ [(path, outcome)] } := by
  simp only [next, hopen, h]

/-- An event moves the pool, or changes nothing. -/
theorem next_moves (files : FileTree) (pool : Pool) (event : PoolEvent) :
    pool.next files event = pool ∨ pool.Moves files (pool.next files event) := by
  cases event with
  | start =>
    cases hfound : pool.jobs.findIdx? (·.stage.isWaiting) with
    | none => exact .inl (by simp only [next, hfound])
    | some position =>
      obtain ⟨path, hread, hnext⟩ := next_start files hfound
      rw [hnext]
      split
      · next hfree => exact .inr (.starts hread hfound hfree)
      · exact .inl rfl
  | step position =>
    cases hread : pool.jobs[position]? with
    | none => exact .inl (by simp only [next, hread])
    | some job =>
      rw [next_step hread]
      cases hrunning : job.stage.isRunning with
      | true => exact .inr (.steps hread hrunning)
      | false =>
        obtain ⟨hlt, rfl⟩ := List.getElem?_eq_some_iff.mp hread
        rw [Job.step_of_not_isRunning files pool.session hrunning, List.set_getElem_self]
        exact .inl rfl
  | collect position =>
    simp only [next]
    split
    · next hopen hread => exact .inr (.collects hopen hread)
    · exact .inl rfl
  | drop position =>
    simp only [next]
    split
    · next error path hfailure hread =>
      split
      · next hdropping => exact .inr (.drops hfailure hdropping hread)
      · exact .inl rfl
    · exact .inl rfl
  | cancel =>
    cases hcancelled : pool.session.token.cancelled with
    | false => exact .inr (.cancels hcancelled)
    | true =>
      obtain ⟨⟨config, ⟨polls, cancelled, countdown⟩, cache, units⟩, jobs, collected, interrupted⟩ := pool
      obtain rfl : cancelled = true := hcancelled
      exact .inl rfl
  | interrupt =>
    simp only [next]
    split
    · exact .inl rfl
    · next hopen =>
      rw [Bool.or_eq_true, not_or, Option.isSome_iff_ne_none, not_not] at hopen
      exact .inr (.interrupts hopen.1)

/-- What every move preserves, every schedule preserves. -/
theorem run_induction {P : Pool → Prop} (hmoves : ∀ {pool after : Pool}, pool.Moves files after → P pool → P after)
    (h : P pool) (events : List PoolEvent) : P (pool.run files events) := by
  induction events generalizing pool with
  | nil => exact h
  | cons event events ih =>
    have hnext : P (pool.next files event) := by
      rcases pool.next_moves files event with hstays | hmove
      · rwa [hstays]
      · exact hmoves hmove h
    exact ih hnext

/-- What has ended the collecting stays its end. -/
theorem Moves.failure {error : SessionError} (h : pool.Moves files after) (hfailure : pool.failure? = some error) :
    after.failure? = some error := by
  cases h with
  | collects hopen => simp [hopen] at hfailure
  | interrupts hopen => simp [hopen] at hfailure
  | _ => exact hfailure

/-- A scan that has ended has no file left to start or to work on, and its end is an error of the collecting or the report
of all outcomes. -/
theorem outcome?_cases {root : Text} {outcome : Except SessionError ScanResult} (h : pool.outcome? root = some outcome) :
    (∀ job ∈ pool.jobs, job.stage.isWaiting = false ∧ job.stage.isRunning = false) ∧
      ((∃ error, pool.failure? = some error ∧ outcome = .error error) ∨
        pool.failure? = none ∧ (∀ job ∈ pool.jobs, job.stage.isDelivered = true) ∧
          outcome = .ok ((Tally.collect {} pool.collected).1.report pool.jobs.length root)) := by
  unfold outcome? at h
  split at h
  · simp at h
  next hidle =>
  rw [Bool.not_eq_true, List.any_eq_false] at hidle
  refine ⟨fun job hmem => ?_, ?_⟩
  · have hjob := hidle job hmem
    rwa [Bool.not_eq_true, Bool.or_eq_false_iff] at hjob
  cases hfailure : pool.failure? with
  | some error =>
    simp only [hfailure, Option.some.injEq] at h
    exact .inl ⟨error, rfl, h.symm⟩
  | none =>
    simp only [hfailure] at h
    split at h
    · next hdelivered => exact .inr ⟨rfl, List.all_eq_true.mp hdelivered, (Option.some.inj h).symm⟩
    · simp at h

end Pool

/-! ### Work -/

def LoadStage.work : LoadStage → Nat
  | .lookup => 3
  | .reading => 2
  | .inserting _ => 1
  | .finished _ => 0

def CallStage.work : CallStage → Nat
  | .lookup => 7
  | .recording _ => 6
  | .checking pending => 2 + pending.length
  | .committing _ => 1
  | .finished _ => 0

def JobStage.work : JobStage → Nat
  | .waiting => 15
  | .starting => 14
  | .loading stage => 10 + stage.work
  | .classifying _ stage => 2 + stage.work
  | .finished _ => 1
  | .delivered _ => 0
  | .dropped => 0

/-- A bound on the events that still change something: the steps of the files, a cancellation and an interruption. -/
def Pool.work (pool : Pool) : Nat :=
  (pool.jobs.map (·.stage.work)).sum + (!pool.session.token.cancelled).toNat + (!pool.interrupted).toNat

private theorem LoadCall.work_step (files : FileTree) (encodingName : Text) (table : UnitTable) (call : LoadCall) :
    (JobStage.afterLoading (call.step files encodingName table).2.stage).work < 10 + call.stage.work := by
  obtain ⟨location, stage⟩ := call
  cases stage with
  | lookup =>
    simp only [step]
    split <;> simp [JobStage.afterLoading, JobStage.work, LoadStage.work, CallStage.work]
  | reading =>
    simp only [step]
    split <;> simp [JobStage.afterLoading, JobStage.work, LoadStage.work]
  | inserting fresh => simp [step, JobStage.afterLoading, JobStage.work, LoadStage.work, CallStage.work]
  | finished outcome =>
    cases outcome <;> simp [step, JobStage.afterLoading, JobStage.work, LoadStage.work, CallStage.work]

private theorem Call.work_step (config : Config) (cache : Cache UnitId) (unit : LoadedUnit) (token : CancellationToken)
    (stage : CallStage) :
    (JobStage.afterClassifying unit (Call.step config cache ⟨some unit.document, token, stage⟩).2.1.stage).work <
      2 + stage.work := by
  cases stage with
  | lookup => simp [step, JobStage.afterClassifying, JobStage.work, CallStage.work]
  | recording found =>
    cases found <;> simp [step, JobStage.afterClassifying, JobStage.work, CallStage.work, Heuristic.all]
  | checking pending =>
    cases pending with
    | nil => simp [step, JobStage.afterClassifying, JobStage.work, CallStage.work]
    | cons heuristic rest =>
      simp only [step]
      repeat' split
      all_goals
        simp only [JobStage.afterClassifying, JobStage.work, CallStage.work, List.length_cons]
        omega
  | committing verdict => simp [step, JobStage.afterClassifying, JobStage.work, CallStage.work]
  | finished outcome => simp [step, JobStage.afterClassifying, JobStage.work, CallStage.work]

private theorem Job.work_step (files : FileTree) (session : Session) {job : Job} (h : job.stage.isRunning = true) :
    (job.step files session).2.stage.work < job.stage.work := by
  obtain ⟨path, stage⟩ := job
  cases stage with
  | starting =>
    simp only [step]
    repeat' split
    all_goals simp [JobStage.work, LoadStage.work]
  | loading stage => exact LoadCall.work_step ..
  | classifying unit stage => exact Call.work_step ..
  | _ => simp [JobStage.isRunning] at h

private theorem sum_set_add {α : Type} (f : α → Nat) {list : List α} {position : Nat} {old : α}
    (h : list[position]? = some old) (new : α) :
    ((list.set position new).map f).sum + f old = (list.map f).sum + f new := by
  induction list generalizing position with
  | nil => simp at h
  | cons a rest ih =>
    cases position with
    | zero =>
      obtain rfl : a = old := by simpa using h
      simp only [List.set_cons_zero, List.map_cons, List.sum_cons]
      omega
    | succ position =>
      have hrest := @ih position (by simpa using h)
      simp only [List.set_cons_succ, List.map_cons, List.sum_cons]
      omega

namespace Pool
variable {files : FileTree} {pool after : Pool}

private theorem work_set {position : Nat} {old : Job} (h : pool.jobs[position]? = some old) (new : Job)
    (hwork : new.stage.work < old.stage.work) :
    ((pool.jobs.set position new).map (·.stage.work)).sum < (pool.jobs.map (·.stage.work)).sum := by
  have hsum := sum_set_add (fun job : Job => job.stage.work) h new
  omega

/-- Every move uses up work. -/
theorem Moves.work_lt (h : pool.Moves files after) : after.work < pool.work := by
  unfold work
  cases h with
  | @starts position path hread =>
    have hset := work_set hread ⟨path, .starting⟩ (Nat.lt_succ_self 14)
    exact Nat.add_lt_add_right (Nat.add_lt_add_right hset _) _
  | @steps position job hread hrunning =>
    have hset := work_set hread _ (Job.work_step files pool.session hrunning)
    have hcancelled := (Job.step_path_token files pool.session job).2
    have htoken : (!(job.step files pool.session).1.token.cancelled).toNat ≤
        (!pool.session.token.cancelled).toNat := by
      cases hold : pool.session.token.cancelled with
      | true => simp [hcancelled hold]
      | false => exact Bool.toNat_le _
    exact Nat.add_lt_add_right (Nat.add_lt_add_of_lt_of_le hset htoken) _
  | @collects position path outcome hopen hread =>
    have hset := work_set hread ⟨path, .delivered outcome⟩ Nat.one_pos
    exact Nat.add_lt_add_right (Nat.add_lt_add_right hset _) _
  | @drops position path error hfailure hdropping hread =>
    have hset := work_set hread ⟨path, .dropped⟩ (Nat.succ_pos 14)
    exact Nat.add_lt_add_right (Nat.add_lt_add_right hset _) _
  | cancels hcancelled => simp [Session.cancel, CancellationToken.cancel, hcancelled]
  | interrupts hopen =>
    have hinterrupted : pool.interrupted = false := by
      cases hinterrupted : pool.interrupted with
      | false => rfl
      | true => simp [failure?, hinterrupted] at hopen
    have hstays : (!true).toNat ≤ (!pool.session.token.cancelled).toNat := Nat.zero_le _
    have hless : (!true).toNat < (!pool.interrupted).toNat := by rw [hinterrupted]; exact Nat.one_pos
    exact Nat.add_lt_add_of_le_of_lt (Nat.add_le_add_left hstays _) hless

def IsEffective (files : FileTree) (pool : Pool) (events : List PoolEvent) : Prop :=
  ∀ before event behind, events = before ++ event :: behind →
    (pool.run files before).next files event ≠ pool.run files before

/-- An effective schedule is no longer than the work at its start. -/
theorem length_le_work {events : List PoolEvent} (h : pool.IsEffective files events) : events.length ≤ pool.work := by
  induction events generalizing pool with
  | nil => exact Nat.zero_le _
  | cons event events ih =>
    have hmove : pool.Moves files (pool.next files event) :=
      (pool.next_moves files event).resolve_left (h [] event events rfl)
    have hrest : events.length ≤ (pool.next files event).work := by
      apply ih
      intro before next behind hevents
      exact h (event :: before) next behind (congrArg (event :: ·) hevents)
    exact Nat.lt_of_le_of_lt hrest hmove.work_lt

theorem work_start (session : Session) (paths : List Path) : (start session paths).work ≤ 15 * paths.length + 2 := by
  have hsum : ((start session paths).jobs.map (·.stage.work)).sum = 15 * paths.length := by
    simp [start, JobStage.work, Function.comp_def, List.map_const', Nat.mul_comm]
  have htoken := Bool.toNat_le (!(start session paths).session.token.cancelled)
  have hinterrupted := Bool.toNat_le (!(start session paths).interrupted)
  unfold work
  omega

/-! ### Progress -/

end Pool

/-- The event is one of the workers or of the collecting, and not one from outside. -/
def PoolEvent.isInner : PoolEvent → Bool
  | .cancel | .interrupt => false
  | _ => true

def Pool.IsSettled (files : FileTree) (pool : Pool) : Prop :=
  ∀ event, event.isInner = true → pool.next files event = pool

private theorem Job.step_ne_dropped (files : FileTree) (session : Session) {job : Job} (h : job.stage.isRunning = true) :
    (job.step files session).2.stage ≠ .dropped := by
  obtain ⟨path, stage⟩ := job
  cases stage with
  | starting =>
    simp only [step]
    repeat' split
    all_goals simp
  | loading stage =>
    simp only [step, JobStage.afterLoading]
    split <;> simp
  | classifying unit stage =>
    simp only [step, JobStage.afterClassifying]
    split <;> simp
  | _ => simp [JobStage.isRunning] at h

namespace Pool
variable {files : FileTree} {pool after : Pool}

def DropsForCause (pool : Pool) : Prop := ∀ job ∈ pool.jobs, job.stage = .dropped → pool.failure? ≠ none

private theorem Moves.dropsForCause (h : pool.Moves files after) (hcause : pool.DropsForCause) : after.DropsForCause := by
  intro job hmem hdropped
  cases h with
  | starts hread =>
    rcases List.mem_or_eq_of_mem_set hmem with hmem | rfl
    · exact hcause job hmem hdropped
    · simp at hdropped
  | steps hread hrunning =>
    rcases List.mem_or_eq_of_mem_set hmem with hmem | rfl
    · exact hcause job hmem hdropped
    · exact absurd hdropped (Job.step_ne_dropped files pool.session hrunning)
  | collects hopen hread =>
    rcases List.mem_or_eq_of_mem_set hmem with hmem | rfl
    · exact absurd hopen (hcause job hmem hdropped)
    · simp at hdropped
  | drops hfailure hdropping hread =>
    have hlater := (Moves.drops hfailure hdropping hread : pool.Moves files _).failure hfailure
    rw [hlater]
    exact Option.some_ne_none _
  | cancels hcancelled => exact hcause job hmem hdropped
  | interrupts hopen => exact absurd hopen (hcause job hmem hdropped)

/-- While a scan has no outcome, some event of the workers or of the collecting changes it. -/
theorem exists_next_ne (hworkers : 0 < pool.session.config.maxWorkers) (hcause : pool.DropsForCause) {root : Text}
    (h : pool.outcome? root = none) : ∃ event : PoolEvent, event.isInner = true ∧ pool.next files event ≠ pool := by
  have hne : ∀ {event : PoolEvent}, pool.Moves files (pool.next files event) → pool.next files event ≠ pool := by
    intro event hmove hsame
    exact absurd (hsame ▸ hmove.work_lt) (Nat.lt_irrefl _)
  by_cases hrunning : ∃ job ∈ pool.jobs, job.stage.isRunning = true
  · obtain ⟨job, hmem, hrunning⟩ := hrunning
    obtain ⟨position, hread⟩ := List.mem_iff_getElem?.mp hmem
    refine ⟨.step position, rfl, hne ?_⟩
    rw [next_step hread]
    exact .steps hread hrunning
  push Not at hrunning
  cases hwaiting : pool.jobs.findIdx? (·.stage.isWaiting) with
  | some position =>
    obtain ⟨path, hread, hnext⟩ := next_start files hwaiting
    have hidle : pool.jobs.countP (·.stage.isRunning) = 0 := List.countP_eq_zero.mpr hrunning
    have hfree : (pool.jobs.countP (·.stage.isRunning) : Int) < pool.session.config.maxWorkers := by
      rwa [hidle, Int.natCast_zero]
    refine ⟨.start, rfl, hne ?_⟩
    rw [hnext, if_pos hfree]
    exact .starts hread hwaiting hfree
  | none =>
    rw [List.findIdx?_eq_none_iff] at hwaiting
    have hidle : (pool.jobs.any fun job => job.stage.isWaiting || job.stage.isRunning) = false := by
      rw [List.any_eq_false]
      intro job hmem
      simp [hwaiting job hmem, hrunning job hmem]
    unfold outcome? at h
    rw [hidle, if_neg Bool.false_ne_true] at h
    cases hopen : pool.failure? with
    | some error => simp [hopen] at h
    | none =>
      obtain ⟨⟨path, stage⟩, hmem, hundelivered⟩ :
          ∃ job ∈ pool.jobs, job.stage.isDelivered = false := by simpa [hopen] using h
      obtain ⟨position, hread⟩ := List.mem_iff_getElem?.mp hmem
      have hwaiting := hwaiting _ hmem
      have hrunning := hrunning _ hmem
      cases stage with
      | finished outcome =>
        refine ⟨.collect position, rfl, hne ?_⟩
        rw [next_collect files hopen hread]
        exact .collects hopen hread
      | dropped => exact absurd hopen (hcause _ hmem rfl)
      | delivered outcome => simp [JobStage.isDelivered] at hundelivered
      | waiting => simp [JobStage.isWaiting] at hwaiting
      | _ => simp [JobStage.isRunning] at hrunning

theorem dropsForCause_run (session : Session) (paths : List Path) (events : List PoolEvent) :
    ((start session paths).run files events).DropsForCause := by
  refine run_induction (fun hmove hcause => hmove.dropsForCause hcause) ?_ events
  intro job hmem hdropped
  obtain ⟨path, -, rfl⟩ := List.mem_map.mp hmem
  simp at hdropped

/-- A scan that has come to rest has an outcome. -/
theorem exists_outcome (hworkers : 0 < pool.session.config.maxWorkers) (hcause : pool.DropsForCause)
    (hsettled : pool.IsSettled files) (root : Text) : ∃ outcome, pool.outcome? root = some outcome := by
  cases houtcome : pool.outcome? root with
  | some outcome => exact ⟨outcome, rfl⟩
  | none =>
    obtain ⟨event, hinner, hne⟩ := exists_next_ne hworkers hcause houtcome
    exact absurd (hsettled event hinner) hne

end Pool

end SourceOrigin
