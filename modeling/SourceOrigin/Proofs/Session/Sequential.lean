import SourceOrigin.Proofs.Session.PoolAgreement

/-! A scan that processes its files one after the other is a scan by a pool, under one of its schedules: each file is
brought to its end before the next is started, and the outcomes are collected in the order of the list. -/
namespace SourceOrigin

def Job.stepped (files : FileTree) (state : Session × Job) : Session × Job := state.2.step files state.1

def Job.Reaches (files : FileTree) (state last : Session × Job) : Prop := ∃ n, (Job.stepped files)^[n] state = last

namespace Job
variable {files : FileTree} {state next last : Session × Job}

theorem Reaches.refl (state : Session × Job) : Reaches files state state := ⟨0, rfl⟩

theorem Reaches.head (h : Reaches files (state.2.step files state.1) last) : Reaches files state last := by
  obtain ⟨n, hn⟩ := h
  exact ⟨n + 1, hn⟩

theorem Reaches.trans (h : Reaches files state next) (h' : Reaches files next last) : Reaches files state last := by
  obtain ⟨n, rfl⟩ := h
  obtain ⟨m, rfl⟩ := h'
  exact ⟨m + n, Function.iterate_add_apply _ m n state⟩

private theorem reaches_afterLoading (files : FileTree) (n : Nat) (session : Session) (path : Path) (stage : LoadStage) :
    let call := LoadCall.advance files session.config.sourceEncoding n session.units ⟨files.resolve path, stage⟩
    Reaches files (session, ⟨path, .afterLoading stage⟩)
      ({ session with units := call.1 }, ⟨path, .afterLoading call.2.stage⟩) := by
  induction n generalizing session stage with
  | zero => exact .refl _
  | succ n ih =>
    by_cases hopen : ∃ outcome, stage = .finished outcome
    · obtain ⟨outcome, rfl⟩ := hopen
      exact ih session (.finished outcome)
    have hloading : JobStage.afterLoading stage = .loading stage := by
      cases stage with
      | finished outcome => exact absurd ⟨outcome, rfl⟩ hopen
      | _ => rfl
    have hrest := ih { session with units :=
      (LoadCall.step files session.config.sourceEncoding session.units ⟨files.resolve path, stage⟩).1 }
      (LoadCall.step files session.config.sourceEncoding session.units ⟨files.resolve path, stage⟩).2.stage
    rw [← LoadCall.step_eq files session.config.sourceEncoding session.units ⟨files.resolve path, stage⟩] at hrest
    rw [hloading]
    exact hrest.head

private theorem reaches_afterClassifying (files : FileTree) (n : Nat) (session : Session) (path : Path) (unit : LoadedUnit)
    (stage : CallStage) :
    let call := Call.advance session.config n session.cache ⟨some unit.document, session.token, stage⟩
    Reaches files (session, ⟨path, .afterClassifying unit stage⟩)
      ({ session with cache := call.1, token := call.2.1.token }, ⟨path, .afterClassifying unit call.2.1.stage⟩) := by
  induction n generalizing session stage with
  | zero => exact .refl _
  | succ n ih =>
    by_cases hopen : ∃ outcome, stage = .finished outcome
    · obtain ⟨outcome, rfl⟩ := hopen
      exact ih session (.finished outcome)
    have hclassifying : JobStage.afterClassifying unit stage = .classifying unit stage := by
      cases stage with
      | finished outcome => exact absurd ⟨outcome, rfl⟩ hopen
      | _ => rfl
    have hcall : (Call.step session.config session.cache ⟨some unit.document, session.token, stage⟩).2.1 =
        ⟨some unit.document, (session.afterStep unit.document stage).token, _⟩ :=
      congrArg (Call.mk · _ _) (Call.step_document_token ..).1
    have hrest := ih (session.afterStep unit.document stage)
      (Call.step session.config session.cache ⟨some unit.document, session.token, stage⟩).2.1.stage
    rw [← hcall] at hrest
    rw [hclassifying]
    exact hrest.head

/-- A worker that is left alone processes its file. -/
theorem reaches_processFile (files : FileTree) (session : Session) (path : Path) :
    Reaches files (session, ⟨path, .starting⟩)
      ((session.processFile files path).session, ⟨path, .finished (session.processFile files path).outcome⟩) := by
  refine .head ?_
  simp only [step, Session.processFile]
  by_cases hcancelled : session.token.poll.cancelled = true
  · rw [if_pos hcancelled, if_pos hcancelled]
    exact .refl _
  rw [if_neg hcancelled, if_neg hcancelled]
  generalize { session with token := session.token.poll } = polled
  cases hresolved : files.resolutionError? path with
  | some error =>
    simp only [Session.classifyPath, Session.load, hresolved]
    exact .refl _
  | none =>
    have hload := reaches_afterLoading files 3 polled path .lookup
    rw [LoadCall.advance_eq_load] at hload
    simp only [Session.classifyPath, Session.load, hresolved]
    rcases hloaded : polled.units.load files polled.config.sourceEncoding (files.resolve path) with ⟨units, error | unit⟩
    · rw [hloaded] at hload
      exact hload
    · rw [hloaded] at hload
      have hclassify := reaches_afterClassifying files 7 { polled with units } path unit .lookup
      rw [Call.advance_eq_classifyDocument] at hclassify
      exact hload.trans hclassify

def ended (outcome : Path × Except SessionError Bool) : Job := ⟨outcome.1, .finished outcome.2⟩

end Job

private theorem Session.config_processFile (session : Session) (files : FileTree) (path : Path) :
    (session.processFile files path).session.config = session.config := by
  simp only [processFile]
  split
  · rfl
  simp only [classifyPath, load]
  repeat' split
  all_goals rfl

private theorem Session.length_processFiles (session : Session) (files : FileTree) (paths : List Path) :
    (session.processFiles files paths).1.length = paths.length := by
  induction paths generalizing session with
  | nil => rfl
  | cons path rest ih => exact congrArg (· + 1) (ih _)

private theorem JobStage.idle_of_isDelivered {stage : JobStage} (h : stage.isDelivered = true) :
    stage.isWaiting = false ∧ stage.isRunning = false := by
  cases stage with
  | delivered outcome => exact ⟨rfl, rfl⟩
  | _ => simp [isDelivered] at h

namespace Pool
variable {files : FileTree} {pool : Pool}

private theorem run_append (files : FileTree) (pool : Pool) (events more : List PoolEvent) :
    pool.run files (events ++ more) = (pool.run files events).run files more :=
  List.foldl_append

private theorem run_reaches {position : Nat} {job : Job} {last : Session × Job} (hread : pool.jobs[position]? = some job)
    (h : Job.Reaches files (pool.session, job) last) :
    ∃ events, pool.run files events = { pool with session := last.1, jobs := pool.jobs.set position last.2 } := by
  obtain ⟨n, rfl⟩ := h
  induction n generalizing pool job with
  | zero => exact ⟨[], by rw [Function.iterate_zero_apply, set_of_getElem? hread]; rfl⟩
  | succ n ih =>
    have hlt : position < pool.jobs.length := (List.getElem?_eq_some_iff.mp hread).1
    obtain ⟨events, hevents⟩ := @ih (pool.next files (.step position)) (job.step files pool.session).2 (by
      rw [next_step hread]
      exact List.getElem?_set_self hlt)
    refine ⟨.step position :: events, hevents.trans ?_⟩
    rw [next_step hread, Function.iterate_succ_apply, List.set_set]
    rfl

/-- The files that wait are started and processed one after the other. -/
theorem run_processFiles (files : FileTree) (rest : List Path) {pool : Pool} {done : List Job}
    (hworkers : 0 < pool.session.config.maxWorkers) (hjobs : pool.jobs = done ++ rest.map (Job.mk · .waiting))
    (hdone : ∀ job ∈ done, job.stage.isWaiting = false ∧ job.stage.isRunning = false) :
    ∃ events, pool.run files events = { pool with
      session := (pool.session.processFiles files rest).2.1
      jobs := done ++ (pool.session.processFiles files rest).1.map .ended } := by
  induction rest generalizing pool done with
  | nil =>
    refine ⟨[], ?_⟩
    have hjobs : pool.jobs = done ++ [] := hjobs
    simp only [Session.processFiles, List.map_nil, ← hjobs]
    rfl
  | cons path rest ih =>
    have hread : pool.jobs[done.length]? = some ⟨path, .waiting⟩ := by simp [hjobs]
    have hfound : pool.jobs.findIdx? (·.stage.isWaiting) = some done.length := by
      have hnone : done.findIdx? (·.stage.isWaiting) = none :=
        List.findIdx?_eq_none_iff.mpr fun job hmem => (hdone job hmem).1
      rw [hjobs, List.findIdx?_append, hnone]
      simp [List.findIdx?_cons, JobStage.isWaiting]
    have hidle : pool.jobs.countP (·.stage.isRunning) = 0 := by
      rw [List.countP_eq_zero, hjobs]
      intro job hmem
      rcases List.mem_append.mp hmem with hmem | hmem
      · simp [(hdone job hmem).2]
      · obtain ⟨path, -, rfl⟩ := List.mem_map.mp hmem
        simp [JobStage.isRunning]
    have hstart : pool.next files .start = pool.put done.length path .starting := by
      obtain ⟨found, hsame, hnext⟩ := next_start files hfound
      obtain rfl : path = found := by simpa [hread] using hsame
      rw [hnext, hidle, Int.natCast_zero, if_pos hworkers]
    have hlt : done.length < pool.jobs.length := (List.getElem?_eq_some_iff.mp hread).1
    have hstarted : (pool.put done.length path .starting).jobs[done.length]? = some ⟨path, .starting⟩ :=
      List.getElem?_set_self hlt
    obtain ⟨events, hevents⟩ := run_reaches hstarted (Job.reaches_processFile files pool.session path)
    generalize hprocessed : pool.session.processFile files path = processed at hevents
    have hnext : pool.run files (.start :: events) = { pool with
        session := processed.session
        jobs := (done ++ [.ended (path, processed.outcome)]) ++ rest.map (Job.mk · .waiting) } := by
      rw [run, List.foldl_cons, hstart, ← run, hevents, put, List.set_set, hjobs]
      simp [Job.ended]
    obtain ⟨more, hmore⟩ := @ih (pool.run files (.start :: events)) (done ++ [.ended (path, processed.outcome)])
      (by rwa [hnext, ← hprocessed, Session.config_processFile]) (by rw [hnext]) (by
        intro job hmem
        rcases List.mem_append.mp hmem with hmem | hmem
        · exact hdone job hmem
        · rw [List.mem_singleton.mp hmem]
          exact ⟨rfl, rfl⟩)
    refine ⟨.start :: events ++ more, ?_⟩
    rw [run, List.foldl_append, ← run, ← run, hmore, hnext, Session.processFiles, hprocessed]
    simp

def close (count : Nat) (root : Text) : Tally × Option SessionError → Except SessionError ScanResult
  | (_, some error) => .error error
  | (tally, none) => .ok (tally.report count root)

private theorem close_error {collected : Tally × Option SessionError} {error : SessionError} (h : collected.2 = some error)
    (count : Nat) (root : Text) : close count root collected = .error error := by
  obtain ⟨tally, stopped⟩ := collected
  obtain rfl : stopped = some error := h
  rfl

private theorem close_ok {collected : Tally × Option SessionError} (h : collected.2 = none) (count : Nat) (root : Text) :
    close count root collected = .ok (collected.1.report count root) := by
  obtain ⟨tally, stopped⟩ := collected
  obtain rfl : stopped = none := h
  rfl

private theorem failure?_of_not_interrupted (h : pool.interrupted = false) :
    pool.failure? = (Tally.collect {} pool.collected).2 := by
  rw [failure?, h, if_neg Bool.false_ne_true]

/-- No file waits or is worked on, so the scan need not wait for one. -/
private theorem any_eq_false (hidle : ∀ job ∈ pool.jobs, job.stage.isWaiting = false ∧ job.stage.isRunning = false) :
    (pool.jobs.any fun job => job.stage.isWaiting || job.stage.isRunning) = false := by
  rw [List.any_eq_false]
  intro job hmem
  simp [hidle job hmem]

private theorem outcome?_of_failure {error : SessionError} (hfailure : pool.failure? = some error)
    (hidle : ∀ job ∈ pool.jobs, job.stage.isWaiting = false ∧ job.stage.isRunning = false) (root : Text) :
    pool.outcome? root = some (.error error) := by
  rw [outcome?, any_eq_false hidle, if_neg Bool.false_ne_true]
  simp only [hfailure]

private theorem outcome?_of_delivered (hopen : pool.failure? = none)
    (hdelivered : ∀ job ∈ pool.jobs, job.stage.isDelivered = true)
    (root : Text) :
    pool.outcome? root = some (.ok ((Tally.collect {} pool.collected).1.report pool.jobs.length root)) := by
  have hidle : ∀ job ∈ pool.jobs, job.stage.isWaiting = false ∧ job.stage.isRunning = false :=
    fun job hmem => JobStage.idle_of_isDelivered (hdelivered job hmem)
  rw [outcome?, any_eq_false hidle, if_neg Bool.false_ne_true]
  simp only [hopen]
  rw [if_pos (List.all_eq_true.mpr hdelivered)]

/-- The outcomes are collected in the order of the list, up to the first that ends the collecting. -/
theorem run_collect (files : FileTree) (root : Text) (outcomes : List (Path × Except SessionError Bool)) {pool : Pool}
    {done : List Job} (hjobs : pool.jobs = done ++ outcomes.map .ended)
    (hdone : ∀ job ∈ done, job.stage.isDelivered = true) (hinterrupted : pool.interrupted = false)
    (hopen : (Tally.collect {} pool.collected).2 = none) :
    ∃ events, (pool.run files events).session = pool.session ∧ (pool.run files events).interrupted = false ∧
      (pool.run files events).outcome? root =
        some (close pool.jobs.length root (Tally.collect {} (pool.collected ++ outcomes))) := by
  induction outcomes generalizing pool done with
  | nil =>
    have hdelivered : ∀ job ∈ pool.jobs, job.stage.isDelivered = true := by
      intro job hmem
      rw [hjobs, List.map_nil, List.append_nil] at hmem
      exact hdone job hmem
    refine ⟨[], rfl, hinterrupted, ?_⟩
    rw [List.append_nil, close_ok hopen]
    exact outcome?_of_delivered ((failure?_of_not_interrupted hinterrupted).trans hopen) hdelivered root
  | cons outcome outcomes ih =>
    obtain ⟨path, outcome⟩ := outcome
    have hread : pool.jobs[done.length]? = some ⟨path, .finished outcome⟩ := by simp [hjobs, Job.ended]
    have hnext := next_collect files ((failure?_of_not_interrupted hinterrupted).trans hopen) hread
    have hcollected : pool.collected ++ (path, outcome) :: outcomes =
        (pool.next files (.collect done.length)).collected ++ outcomes := by simp [hnext]
    have hafter : (pool.next files (.collect done.length)).jobs =
        (done ++ [⟨path, .delivered outcome⟩]) ++ outcomes.map .ended := by
      simp [hnext, put, hjobs]
    have hlength : (pool.next files (.collect done.length)).jobs.length = pool.jobs.length := by simp [hnext, put]
    have hsession : (pool.next files (.collect done.length)).session = pool.session := by rw [hnext, put]
    have hstill : (pool.next files (.collect done.length)).interrupted = false := by rwa [hnext, put]
    have hdelivered : ∀ job ∈ done ++ [⟨path, .delivered outcome⟩], job.stage.isDelivered = true := by
      intro job hmem
      rcases List.mem_append.mp hmem with hmem | hmem
      · exact hdone job hmem
      · rw [List.mem_singleton.mp hmem]
        rfl
    rw [hcollected, ← hlength, ← hsession]
    cases hstop : (Tally.collect {} (pool.next files (.collect done.length)).collected).2 with
    | none =>
      obtain ⟨events, hrun⟩ := ih hafter hdelivered hstill hstop
      exact ⟨.collect done.length :: events, hrun⟩
    | some error =>
      refine ⟨[.collect done.length], rfl, hstill, ?_⟩
      have hwhole : (Tally.collect {} ((pool.next files (.collect done.length)).collected ++ outcomes)).2 =
          some error := by
        rw [Tally.collect_error] at hstop ⊢
        rw [List.findSome?_append, hstop, Option.some_or]
      rw [close_error hwhole]
      refine outcome?_of_failure ((failure?_of_not_interrupted hstill).trans hstop) ?_ root
      intro job hmem
      rw [hafter] at hmem
      rcases List.mem_append.mp hmem with hmem | hmem
      · exact JobStage.idle_of_isDelivered (hdelivered job hmem)
      · obtain ⟨outcome, -, rfl⟩ := List.mem_map.mp hmem
        exact ⟨rfl, rfl⟩

end Pool

theorem Session.run_of_interrupt (session : Session) (files : FileTree) {paths : List Path} (hne : paths ≠ [])
    (root : Text) :
    (session.run files paths root true).session = (session.processFiles files paths).2.1.cancel.session ∧
      (session.run files paths root true).outcome = .error .interrupted := by
  cases paths with
  | nil => exact absurd rfl hne
  | cons path rest => exact ⟨rfl, rfl⟩

theorem Session.run_of_no_interrupt (session : Session) (files : FileTree) {paths : List Path} (hne : paths ≠ [])
    (root : Text) :
    (session.run files paths root).session = (session.processFiles files paths).2.1 ∧
      (session.run files paths root).outcome =
        Pool.close paths.length root (Tally.collect {} (session.processFiles files paths).1) := by
  cases paths with
  | nil => exact absurd rfl hne
  | cons path rest =>
    simp only [run, Bool.false_eq_true, if_false]
    rcases Tally.collect {} (session.processFiles files (path :: rest)).1 with ⟨tally, _ | error⟩
    · exact ⟨rfl, rfl⟩
    · exact ⟨rfl, rfl⟩

/-- What a scan does that processes its files in the order of the list, a pool does under some schedule. -/
theorem Session.exists_schedule (session : Session) (files : FileTree) (paths : List Path) (root : Text)
    (interrupt : Bool) (hworkers : 0 < session.config.maxWorkers) :
    ∃ events, ((Pool.start session paths).run files events).session =
        (session.run files paths root interrupt).session ∧
      (((Pool.start session paths).run files events).interrupted = true → interrupt = true) ∧
      ((Pool.start session paths).run files events).outcome? root =
        some (session.run files paths root interrupt).outcome := by
  by_cases hne : paths = []
  · subst hne
    exact ⟨[], rfl, by simp [Pool.run, Pool.start], Pool.outcome?_of_delivered rfl (by simp [Pool.start, Pool.run]) root⟩
  obtain ⟨events, hevents⟩ := @Pool.run_processFiles files paths (Pool.start session paths) [] hworkers rfl (by simp)
  change _ = { Pool.start session paths with
    session := (session.processFiles files paths).2.1
    jobs := (session.processFiles files paths).1.map .ended } at hevents
  have hlength := session.length_processFiles files paths
  cases interrupt with
  | true =>
    obtain ⟨hsession, houtcome⟩ := session.run_of_interrupt files hne root
    have hundelivered : ((session.processFiles files paths).1.map Job.ended).all (·.stage.isDelivered) = false := by
      cases houtcomes : (session.processFiles files paths).1 with
      | nil => exact absurd (List.length_eq_zero_iff.mp (hlength.symm.trans (congrArg List.length houtcomes))) hne
      | cons outcome outcomes => rfl
    have hlast : (Pool.start session paths).run files (events ++ [.interrupt]) = { Pool.start session paths with
        session := (session.processFiles files paths).2.1.cancel.session
        jobs := (session.processFiles files paths).1.map .ended
        interrupted := true } := by
      rw [Pool.run_append, hevents]
      simp [Pool.run, Pool.next, Pool.failure?, Pool.start, Tally.collect, hundelivered]
    refine ⟨events ++ [.interrupt], ?_, fun _ => rfl, ?_⟩
    · rw [hlast, hsession]
    · rw [hlast, houtcome]
      refine Pool.outcome?_of_failure rfl ?_ root
      intro job hmem
      obtain ⟨outcome, -, rfl⟩ := List.mem_map.mp hmem
      exact ⟨rfl, rfl⟩
  | false =>
    obtain ⟨hsession, houtcome⟩ := session.run_of_no_interrupt files hne root
    obtain ⟨more, hmore, huninterrupted, hcollected⟩ := @Pool.run_collect files root (session.processFiles files paths).1
      ((Pool.start session paths).run files events) [] (by rw [hevents]; rfl) (by simp) (by rw [hevents]; rfl)
      (by rw [hevents]; rfl)
    refine ⟨events ++ more, ?_, ?_, ?_⟩
    · rw [Pool.run_append, hmore, hsession, hevents]
    · rw [Pool.run_append, huninterrupted]
      exact id
    · rw [Pool.run_append, hcollected, houtcome, hevents, List.length_map, hlength]
      rfl

end SourceOrigin
