import SourceOrigin.Proofs.Session.Progress
import SourceOrigin.Proofs.Session.Tally

/-! What a scan under way knows. Whatever the schedule, the session stays in agreement with its files, every outcome is the
verdict on the file or comes of a cancellation, and what is collected are the outcomes delivered, in some order. -/
namespace SourceOrigin
variable {files : FileTree} {units units' : UnitId → SyntaxTree} {session session' : Session}

def Session.Explains (files : FileTree) (session : Session) (path : Path) (outcome : Except SessionError Bool) : Prop :=
  outcome = files.verdictAt session.config path ∨
    outcome = .error (.classify .cancelled) ∧ session.token.cancelled = true

def Job.Agrees (files : FileTree) (units : UnitId → SyntaxTree) (session : Session) (job : Job) : Prop :=
  match job.stage with
  | .waiting | .starting => True
  | .loading stage =>
    files.resolutionError? job.path = none ∧ LoadCall.Agrees files units session ⟨files.resolve job.path, stage⟩
  | .classifying unit stage =>
    files.unitAt session.config job.path = .ok unit.unit ∧ session.Backs units unit.document stage
  | .finished outcome | .delivered outcome => session.Explains files job.path outcome
  | .dropped => session.token.cancelled = true

theorem Session.Explains.grows {path : Path} {outcome : Except SessionError Bool}
    (h : session.Explains files path outcome) (hgrows : session.Grows units units' session') :
    session'.Explains files path outcome := by
  rw [Explains, hgrows.config]
  exact h.imp id (And.imp id hgrows.cancelled)

theorem LoadCall.Agrees.grows {call : LoadCall} (h : call.Agrees files units session)
    (hgrows : session.Grows units units' session') : call.Agrees files units' session' := by
  obtain ⟨location, stage⟩ := call
  have hfresh {loaded : LoadedUnit} (h : session.Knows units loaded.document ∧
      files.unitIn session.config location = .ok loaded.unit) :
      session'.Knows units' loaded.document ∧ files.unitIn session'.config location = .ok loaded.unit :=
    ⟨h.1.grows hgrows, hgrows.config ▸ h.2⟩
  cases stage with
  | lookup => trivial
  | reading => trivial
  | inserting loaded => exact hfresh h
  | finished outcome =>
    cases outcome with
    | ok loaded => exact hfresh h
    | error error =>
      change files.unitIn session'.config location = .error error
      rw [hgrows.config]
      exact h

theorem Job.Agrees.grows {job : Job} (h : job.Agrees files units session)
    (hgrows : session.Grows units units' session') : job.Agrees files units' session' := by
  obtain ⟨path, stage⟩ := job
  cases stage with
  | waiting => trivial
  | starting => trivial
  | loading stage => exact ⟨h.1, h.2.grows hgrows⟩
  | classifying unit stage => exact ⟨hgrows.config ▸ h.1, h.2.grows hgrows⟩
  | finished outcome => exact Session.Explains.grows h hgrows
  | delivered outcome => exact Session.Explains.grows h hgrows
  | dropped => exact hgrows.cancelled h

/-! ### One step of a worker -/

/-- A call for a unit stays at its location. -/
theorem LoadCall.step_eq (files : FileTree) (encodingName : Text) (table : UnitTable) (call : LoadCall) :
    (call.step files encodingName table).2 = ⟨call.location, (call.step files encodingName table).2.stage⟩ := by
  unfold step
  split
  · split <;> rfl
  · split <;> rfl
  · rfl
  · rfl

private theorem Job.afterLoading_agrees {path : Path} {stage : LoadStage} (hresolved : files.resolutionError? path = none)
    (h : LoadCall.Agrees files units session ⟨files.resolve path, stage⟩) :
    Job.Agrees files units session ⟨path, .afterLoading stage⟩ := by
  have hunit := FileTree.unitAt_of_resolved hresolved session.config
  cases stage with
  | lookup => exact ⟨hresolved, h⟩
  | reading => exact ⟨hresolved, h⟩
  | inserting loaded => exact ⟨hresolved, h⟩
  | finished outcome =>
    cases outcome with
    | ok unit => exact ⟨hunit.trans h.2, h.1, trivial, by simp⟩
    | error error => exact .inl (FileTree.verdictAt_of_error (hunit.trans h)).symm

private theorem Job.afterClassifying_agrees {path : Path} {unit : LoadedUnit} {stage : CallStage}
    (hunit : files.unitAt session.config path = .ok unit.unit) (h : session.Backs units unit.document stage) :
    Job.Agrees files units session ⟨path, .afterClassifying unit stage⟩ := by
  cases stage with
  | finished outcome =>
    cases outcome with
    | ok verdict => exact .inl (FileTree.verdictAt_of_unit hunit h.verdict).symm
    | error error =>
      obtain ⟨rfl, hcancelled⟩ := h.error error rfl
      exact .inr ⟨rfl, hcancelled⟩
  | _ => exact ⟨hunit, h⟩

theorem Job.step_agrees {job : Job} (h : session.Agrees files units) (hjob : job.Agrees files units session) :
    ∃ units', session.Grows units units' (job.step files session).1 ∧
      (job.step files session).1.Agrees files units' ∧
      (job.step files session).2.Agrees files units' (job.step files session).1 := by
  obtain ⟨path, stage⟩ := job
  cases stage with
  | starting =>
    have hgrows : session.Grows units units { session with token := session.token.poll } :=
      ⟨rfl, Nat.le_refl _, fun _ _ => rfl, CancellationToken.cancelled_poll⟩
    refine ⟨units, ?_⟩
    simp only [step]
    by_cases hcancelled : session.token.poll.cancelled = true
    · rw [if_pos hcancelled]
      exact ⟨hgrows, h.withToken _, .inr ⟨rfl, hcancelled⟩⟩
    rw [if_neg hcancelled]
    cases hresolved : files.resolutionError? path with
    | some error =>
      have hunit := FileTree.unitAt_of_resolutionError hresolved session.config
      exact ⟨hgrows, h.withToken _, .inl (FileTree.verdictAt_of_error hunit).symm⟩
    | none => exact ⟨hgrows, h.withToken _, hresolved, trivial⟩
  | loading stage =>
    obtain ⟨hresolved, hcall⟩ := hjob
    obtain ⟨units', hgrows, hagrees, hnext⟩ := LoadCall.step_agrees h hcall
    rw [LoadCall.step_eq] at hnext
    exact ⟨units', hgrows, hagrees, Job.afterLoading_agrees hresolved hnext⟩
  | classifying unit stage =>
    obtain ⟨hunit, hstage⟩ := hjob
    obtain ⟨hgrows, hagrees, hnext⟩ := Call.step_agrees h hstage
    exact ⟨units, hgrows, hagrees, Job.afterClassifying_agrees hunit hnext⟩
  | _ => exact ⟨units, .refl units session, h, hjob⟩

/-! ### A whole scan -/

def Job.delivered? (job : Job) : Option (Path × Except SessionError Bool) :=
  match job.stage with
  | .delivered outcome => some (job.path, outcome)
  | _ => none

private theorem Job.delivered?_of_isRunning {job : Job} (h : job.stage.isRunning = true) : job.delivered? = none := by
  obtain ⟨path, stage⟩ := job
  cases stage with
  | delivered outcome => simp [JobStage.isRunning] at h
  | _ => rfl

private theorem Job.delivered?_step (files : FileTree) (session : Session) {job : Job} (h : job.stage.isRunning = true) :
    (job.step files session).2.delivered? = none := by
  obtain ⟨path, stage⟩ := job
  cases stage with
  | starting =>
    simp only [step]
    repeat' split
    all_goals rfl
  | loading stage =>
    simp only [step, JobStage.afterLoading, delivered?]
    split
    · next heq => split at heq <;> simp at heq
    · rfl
  | classifying unit stage =>
    simp only [step, JobStage.afterClassifying, delivered?]
    split
    · next heq => split at heq <;> simp at heq
    · rfl
  | _ => simp [JobStage.isRunning] at h

/-- The session of a scan agrees with the files, and so does every file of the list. -/
structure Pool.Agrees (files : FileTree) (paths : List Path) (units : UnitId → SyntaxTree) (pool : Pool) : Prop where
  session : pool.session.Agrees files units
  jobs : ∀ job ∈ pool.jobs, job.Agrees files units pool.session
  paths : pool.jobs.map (·.path) = paths
  collected : pool.collected.Perm (pool.jobs.filterMap (·.delivered?))
  interrupted : pool.interrupted = true → pool.session.token.cancelled = true

theorem filterMap_set_perm {α β : Type} (f : α → Option β) {list : List α} {position : Nat} {old : α}
    (h : list[position]? = some old) (new : α) :
    ((f old).toList ++ (list.set position new).filterMap f).Perm ((f new).toList ++ list.filterMap f) := by
  have hcons (a : α) (rest : List α) : (a :: rest).filterMap f = (f a).toList ++ rest.filterMap f := by
    rw [List.filterMap_cons]
    cases f a <;> rfl
  induction list generalizing position with
  | nil => simp at h
  | cons a rest ih =>
    cases position with
    | zero =>
      obtain rfl : a = old := by simpa using h
      rw [List.set_cons_zero, hcons, hcons]
      exact List.perm_append_comm_assoc _ _ _
    | succ position =>
      have hrest := @ih position (by simpa using h)
      rw [List.set_cons_succ, hcons, hcons]
      have hfront := List.perm_append_comm_assoc (f old).toList (f a).toList ((rest.set position new).filterMap f)
      have hback := List.perm_append_comm_assoc (f a).toList (f new).toList (rest.filterMap f)
      exact (hfront.trans (hrest.append_left _)).trans hback

theorem set_of_getElem? {α : Type} {list : List α} {position : Nat} {a : α} (h : list[position]? = some a) :
    list.set position a = list := by
  obtain ⟨hlt, rfl⟩ := List.getElem?_eq_some_iff.mp h
  exact List.set_getElem_self hlt

namespace Pool
variable {paths : List Path} {pool after : Pool}

theorem agrees_start (h : session.Agrees files units) (paths : List Path) :
    (Pool.start session paths).Agrees files paths units where
  session := h
  jobs job hmem := by
    obtain ⟨path, -, rfl⟩ := List.mem_map.mp hmem
    trivial
  paths := by simp [start, Function.comp_def]
  collected := by simp [start, List.filterMap_map, Job.delivered?]
  interrupted := by simp [start]

/-- One file comes to another stage, and nothing is collected. -/
theorem Agrees.set (h : pool.Agrees files paths units) {position : Nat} {old new : Job}
    (hread : pool.jobs[position]? = some old) (hpath : new.path = old.path)
    (hold : old.delivered? = none) (hnew : new.delivered? = none)
    (hgrows : pool.session.Grows units units' session') (hsession : session'.Agrees files units')
    (hjob : new.Agrees files units' session') :
    Agrees files paths units' { pool with session := session', jobs := pool.jobs.set position new } where
  session := hsession
  jobs job hmem := by
    rcases List.mem_or_eq_of_mem_set hmem with hmem | rfl
    · exact (h.jobs job hmem).grows hgrows
    · exact hjob
  paths := by
    rw [List.map_set, hpath, set_of_getElem? (by simp [hread])]
    exact h.paths
  collected := by
    have hset := filterMap_set_perm (·.delivered?) hread new
    rw [hold, hnew] at hset
    exact h.collected.trans hset.symm
  interrupted hinterrupted := hgrows.cancelled (h.interrupted hinterrupted)

/-- The outcome of one more file is collected. -/
theorem Agrees.collect (h : pool.Agrees files paths units) {position : Nat} {path : Path}
    {outcome : Except SessionError Bool} (hread : pool.jobs[position]? = some ⟨path, .finished outcome⟩) :
    Agrees files paths units
      { pool.put position path (.delivered outcome) with collected := pool.collected ++ [(path, outcome)] } where
  session := h.session
  jobs job hmem := by
    rcases List.mem_or_eq_of_mem_set hmem with hmem | rfl
    · exact h.jobs job hmem
    · have hjob := h.jobs _ (List.mem_of_getElem? hread)
      exact hjob
  paths := by
    rw [put, List.map_set, set_of_getElem? (by simp [hread])]
    exact h.paths
  collected := by
    have hset := filterMap_set_perm (·.delivered?) hread ⟨path, .delivered outcome⟩
    exact (List.perm_append_singleton _ _).trans ((h.collected.cons _).trans hset.symm)
  interrupted := h.interrupted

/-- What ends the collecting is an interruption, or the outcome of a file. -/
theorem Agrees.exists_of_failure (h : pool.Agrees files paths units) {error : SessionError}
    (hfailure : pool.failure? = some error) :
    error = .interrupted ∧ pool.interrupted = true ∨
      ∃ path, ⟨path, .delivered (.error error)⟩ ∈ pool.jobs ∧ stop? (.error error) = some error := by
  unfold failure? at hfailure
  split at hfailure
  · next hinterrupted => exact .inl ⟨(Option.some.inj hfailure).symm, hinterrupted⟩
  rw [Tally.collect_error] at hfailure
  obtain ⟨⟨path, outcome⟩, hmem, hstop⟩ := List.exists_of_findSome?_eq_some hfailure
  obtain rfl := eq_error_of_stop? hstop
  obtain ⟨⟨path', stage⟩, hjob, hdelivered⟩ := List.mem_filterMap.mp (h.collected.mem_iff.mp hmem)
  cases stage with
  | delivered outcome =>
    obtain ⟨rfl, rfl⟩ := Prod.mk.inj (Option.some.inj hdelivered)
    exact .inr ⟨path', hjob, hstop⟩
  | _ => simp [Job.delivered?] at hdelivered

/-- While nothing has ended the collecting, no outcome that is delivered can end it. -/
theorem Agrees.stop?_eq_none (h : pool.Agrees files paths units) (hopen : pool.failure? = none) {path : Path}
    {outcome : Except SessionError Bool} (hmem : ⟨path, .delivered outcome⟩ ∈ pool.jobs) : stop? outcome = none := by
  have hcollected : (path, outcome) ∈ pool.collected :=
    h.collected.mem_iff.mpr (List.mem_filterMap.mpr ⟨_, hmem, rfl⟩)
  unfold failure? at hopen
  split at hopen
  · simp at hopen
  rw [Tally.collect_error, List.findSome?_eq_none_iff] at hopen
  exact hopen _ hcollected

/-- What can end the collecting: an interruption or a cancellation, or an error of loading that is no fault of the
file. -/
theorem Agrees.failure_cases (h : pool.Agrees files paths units) {error : SessionError}
    (hfailure : pool.failure? = some error) :
    (error = .interrupted ∧ pool.interrupted = true ∨ error = .classify .cancelled) ∧
        pool.session.token.cancelled = true ∨
      ∃ path ∈ paths, ∃ fault, error = .load fault ∧
        stop? (files.verdictAt pool.session.config path) = some error := by
  rcases h.exists_of_failure hfailure with ⟨rfl, hinterrupted⟩ | ⟨path, hjob, hstop⟩
  · exact .inl ⟨.inl ⟨rfl, hinterrupted⟩, h.interrupted hinterrupted⟩
  rcases h.jobs _ hjob with hverdict | ⟨herror, hcancelled⟩
  · have hpath : path ∈ paths := h.paths ▸ List.mem_map_of_mem hjob
    rcases files.verdictAt_cases h.session.valid path with ⟨_, _, _, _, hvalue⟩ | ⟨fault, -, hvalue⟩
    · simp [hvalue] at hverdict
    · obtain rfl : error = .load fault := Except.error.inj (hverdict.trans hvalue)
      exact .inr ⟨path, hpath, fault, rfl, hverdict ▸ hstop⟩
  · obtain rfl := Except.error.inj herror
    exact .inl ⟨.inr rfl, hcancelled⟩

/-- Files are dropped only from a scan that is cancelled. -/
theorem Agrees.cancelled_of_isDropping (h : pool.Agrees files paths units) {error : SessionError}
    (hfailure : pool.failure? = some error) (hdropping : isDropping error = true) :
    pool.session.token.cancelled = true := by
  rcases h.failure_cases hfailure with ⟨-, hcancelled⟩ | ⟨path, -, fault, rfl, -⟩
  · exact hcancelled
  · simp [isDropping] at hdropping

/-- Every move keeps the agreement. -/
theorem Moves.agrees (hmove : pool.Moves files after) (h : pool.Agrees files paths units) :
    ∃ units', pool.session.Grows units units' after.session ∧ after.Agrees files paths units' := by
  cases hmove with
  | starts hread =>
    have hstays := Session.Grows.refl units pool.session
    exact ⟨units, hstays, h.set hread rfl rfl rfl hstays h.session trivial⟩
  | @steps position job hread hrunning =>
    obtain ⟨units', hgrows, hsession, hjob⟩ := Job.step_agrees h.session (h.jobs job (List.mem_of_getElem? hread))
    have hpath := (Job.step_path_token files pool.session job).1
    have hold := Job.delivered?_of_isRunning hrunning
    have hnew := Job.delivered?_step files pool.session hrunning
    exact ⟨units', hgrows, h.set hread hpath hold hnew hgrows hsession hjob⟩
  | collects hopen hread => exact ⟨units, .refl units pool.session, h.collect hread⟩
  | @drops position path error hfailure hdropping hread =>
    have hstays := Session.Grows.refl units pool.session
    have hcancelled := h.cancelled_of_isDropping hfailure hdropping
    exact ⟨units, hstays, h.set hread rfl rfl rfl hstays h.session hcancelled⟩
  | cancels =>
    obtain ⟨hgrows, hsession⟩ := h.session.cancel
    exact ⟨units, hgrows, hsession, fun job hmem => (h.jobs job hmem).grows hgrows, h.paths, h.collected, fun _ => rfl⟩
  | interrupts =>
    obtain ⟨hgrows, hsession⟩ := h.session.cancel
    exact ⟨units, hgrows, hsession, fun job hmem => (h.jobs job hmem).grows hgrows, h.paths, h.collected, fun _ => rfl⟩

theorem agrees_run (h : pool.Agrees files paths units) (events : List PoolEvent) :
    ∃ units', pool.session.Grows units units' (pool.run files events).session ∧
      (pool.run files events).Agrees files paths units' := by
  refine run_induction (P := fun after => ∃ units', pool.session.Grows units units' after.session ∧
    after.Agrees files paths units') ?_ ⟨units, .refl units pool.session, h⟩ events
  rintro before after hmove ⟨units', hgrows, hagrees⟩
  obtain ⟨later, hgrows', hagrees'⟩ := hmove.agrees hagrees
  exact ⟨later, hgrows.trans hgrows', hagrees'⟩

end Pool

end SourceOrigin
