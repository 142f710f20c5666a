import SourceOrigin.Proofs.Session.Answering
import SourceOrigin.Proofs.Session.FileReads

/-! A list that is scanned again right after a scan of it. The session answers from its tables for every file that was
classified, duplicates and links included, so the second scan only counts hits; a file that could not be read has left
nothing in the tables, so it is read again and fails again. -/
namespace SourceOrigin
variable {files : FileTree} {units : UnitId → SyntaxTree} {session : Session} {path : Path} {paths : List Path}
  {root : Text}

namespace Session

def served (session : Session) (token : CancellationToken) (hits : Nat) : Session :=
  { session with token, cache := { session.cache with hits } }

/-- The session has nothing to learn of the path: it answers for it, or the file cannot be read and is not in the table. -/
def IsReady (session : Session) (files : FileTree) (path : Path) : Prop :=
  session.Answers files path ∨
    session.units.find? (files.resolve path) = none ∧ files.isReadable session.config path = false

end Session

/-! ### One step of a worker -/

def Job.IsServed (files : FileTree) (session : Session) (job : Job) : Prop :=
  match job.stage with
  | .loading .lookup => files.resolutionError? job.path = none
  | .loading .reading => files.resolutionError? job.path = none ∧ files.isReadable session.config job.path = false
  | .loading _ => False
  | .classifying unit .lookup => session.cache.contains unit.id = true
  | .classifying _ (.recording (some _)) => True
  | .classifying _ _ => False
  | _ => True

private theorem FileTree.readUnit_of_not_isReadable {config : Config} (hresolved : files.resolutionError? path = none)
    (h : files.isReadable config path = false) :
    ∃ error, files.readUnit (Path.ofLocation (files.resolve path)) config.sourceEncoding = .error error := by
  rw [isReadable, unitAt_of_resolved hresolved, unitIn] at h
  cases hread : files.readUnit (Path.ofLocation (files.resolve path)) config.sourceEncoding with
  | error error => exact ⟨error, rfl⟩
  | ok unit => simp [hread] at h

/-- A step of a worker that is served changes the token and the count of hits, which is that of the files answered for. -/
theorem Job.step_isServed {job : Job} (hready : files.resolutionError? job.path = none → session.IsReady files job.path)
    (h : job.IsServed files session) (token : CancellationToken) (hits : Nat) :
    ∃ token' hits', (job.step files (session.served token hits)).1 = session.served token' hits' ∧
      hits' + job.stage.hasLooked.toNat =
        hits + (job.step files (session.served token hits)).2.stage.hasLooked.toNat ∧
      (job.step files (session.served token hits)).2.IsServed files session := by
  obtain ⟨path, stage⟩ := job
  cases stage with
  | starting =>
    refine ⟨token.poll, hits, ?_⟩
    simp only [step]
    split
    · exact ⟨rfl, rfl, trivial⟩
    split
    · exact ⟨rfl, rfl, trivial⟩
    · next hresolved => exact ⟨rfl, rfl, hresolved⟩
  | loading stage =>
    refine ⟨token, hits, ?_⟩
    cases stage with
    | lookup =>
      have hresolved : files.resolutionError? path = none := h
      have htable : (session.served token hits).units = session.units := rfl
      simp only [step, LoadCall.step, htable]
      rcases hready hresolved with ⟨unit, hfound, hstored⟩ | ⟨hmissing, hunreadable⟩
      · simp only [hfound]
        exact ⟨rfl, rfl, hstored⟩
      · simp only [hmissing]
        exact ⟨rfl, rfl, hresolved, hunreadable⟩
    | reading =>
      obtain ⟨hresolved, hunreadable⟩ := h
      obtain ⟨error, hread⟩ := FileTree.readUnit_of_not_isReadable hresolved hunreadable
      have hconfig : (session.served token hits).config = session.config := rfl
      simp only [step, LoadCall.step, hconfig, hread]
      exact ⟨rfl, rfl, trivial⟩
    | _ => exact h.elim
  | classifying unit stage =>
    cases stage with
    | lookup =>
      obtain ⟨verdict, hfound⟩ := Option.isSome_iff_exists.mp h
      have hget : (session.served token hits).cache.get? unit.document.name = some verdict := hfound
      refine ⟨token, hits, ?_⟩
      simp only [step, Call.step, hget]
      exact ⟨trivial, rfl, trivial⟩
    | recording found =>
      cases found with
      | some verdict => exact ⟨token, hits + 1, rfl, rfl, trivial⟩
      | none => exact h.elim
    | _ => exact h.elim
  | _ => exact ⟨token, hits, rfl, rfl, h⟩

/-! ### A whole scan -/

/-- A scan that was started with this session has changed nothing but the token and the count of hits. -/
structure Pool.IsServed (files : FileTree) (session : Session) (pool : Pool) : Prop where
  state : ∃ token, pool.session = session.served token (session.cache.hits + pool.jobs.countP (·.stage.hasLooked))
  ready : ∀ job ∈ pool.jobs, files.resolutionError? job.path = none → session.IsReady files job.path
  jobs : ∀ job ∈ pool.jobs, job.IsServed files session

namespace Pool
variable {pool after : Pool}

private theorem isServed_start (h : ∀ path ∈ paths, session.IsReady files path) :
    (Pool.start session paths).IsServed files session where
  state := ⟨session.token, by simp [start, List.countP_map, Function.comp_def, JobStage.hasLooked, Session.served]⟩
  ready job hmem := by
    obtain ⟨path, hpath, rfl⟩ := List.mem_map.mp hmem
    exact fun _ => h path hpath
  jobs job hmem := by
    obtain ⟨path, -, rfl⟩ := List.mem_map.mp hmem
    trivial

/-- One file comes to another stage. -/
theorem IsServed.set (h : pool.IsServed files session) {position : Nat} {old : Job}
    (hread : pool.jobs[position]? = some old) (new : Job) (hpath : new.path = old.path)
    (hjob : new.IsServed files session) (token : CancellationToken) {hits : Nat}
    (hhits : hits + old.stage.hasLooked.toNat =
      session.cache.hits + pool.jobs.countP (·.stage.hasLooked) + new.stage.hasLooked.toNat)
    (collected : List (Path × Except SessionError Bool)) :
    IsServed files session
      { pool with session := session.served token hits, jobs := pool.jobs.set position new, collected } := by
  have hlooked := @countP_set_add _ (fun job : Job => job.stage.hasLooked) _ _ _ new hread
  have heq : hits = session.cache.hits + (pool.jobs.set position new).countP (·.stage.hasLooked) := by omega
  refine ⟨⟨token, by rw [heq]⟩, fun job hmem => ?_, fun job hmem => ?_⟩
  · rcases List.mem_or_eq_of_mem_set hmem with hmem | rfl
    · exact h.ready job hmem
    · rw [hpath]
      exact h.ready _ (List.mem_of_getElem? hread)
  · rcases List.mem_or_eq_of_mem_set hmem with hmem | rfl
    · exact h.jobs job hmem
    · exact hjob

private theorem Moves.isServed (hmove : pool.Moves files after) (h : pool.IsServed files session) :
    after.IsServed files session := by
  obtain ⟨token, hstate⟩ := h.state
  cases hmove with
  | @starts position path hread =>
    have hset := h.set hread ⟨path, .starting⟩ rfl trivial token rfl pool.collected
    rwa [← hstate] at hset
  | @steps position job hread hrunning =>
    have hmem := List.mem_of_getElem? hread
    obtain ⟨token', hits', hsession, hhits, hjob⟩ := Job.step_isServed (h.ready job hmem) (h.jobs job hmem) token
      (session.cache.hits + pool.jobs.countP (·.stage.hasLooked))
    rw [← hstate] at hsession hhits hjob
    rw [hsession]
    exact h.set hread _ (Job.step_path_token files pool.session job).1 hjob token' hhits pool.collected
  | @collects position path outcome hopen hread =>
    have hhits : (JobStage.delivered outcome).hasLooked = (JobStage.finished outcome).hasLooked := by
      cases outcome <;> rfl
    have hset := h.set hread ⟨path, .delivered outcome⟩ rfl trivial token (by rw [hhits])
      (pool.collected ++ [(path, outcome)])
    rwa [← hstate] at hset
  | @drops position path error hfailure hdropping hread =>
    have hset := h.set hread ⟨path, .dropped⟩ rfl trivial token rfl pool.collected
    rwa [← hstate] at hset
  | cancels => exact ⟨⟨token.cancel, by rw [hstate]; rfl⟩, h.ready, h.jobs⟩
  | interrupts => exact ⟨⟨token.cancel, by rw [hstate]; rfl⟩, h.ready, h.jobs⟩

theorem IsServed.run (h : pool.IsServed files session) (schedule : List PoolEvent) :
    (pool.run files schedule).IsServed files session :=
  run_induction Moves.isServed h schedule

private theorem IsServed.not_isReadable (h : pool.IsServed files session) (schedule : List PoolEvent) :
    ∀ path ∈ pool.reads files schedule, files.isReadable session.config path = false := by
  induction schedule generalizing pool with
  | nil => simp [reads]
  | cons event events ih =>
    have hnext : (pool.next files event).IsServed files session := h.run [event]
    intro path hmem
    rcases List.mem_append.mp hmem with hmem | hmem
    · rw [Option.mem_toList] at hmem
      cases event with
      | step position =>
        obtain ⟨⟨path', stage⟩, hread, hpath⟩ := Option.bind_eq_some_iff.mp hmem
        have hjob := h.jobs _ (List.mem_of_getElem? hread)
        unfold Job.read? at hpath
        split at hpath
        · next hstage =>
          obtain rfl : stage = .loading .reading := hstage
          obtain rfl : path' = path := Option.some.inj hpath
          exact hjob.2
        · simp at hpath
      | _ => simp [read?] at hmem
    · exact ih hnext path hmem

end Pool

/-! ### One scan after the other -/

/-- A scan of the list by a pool of workers comes to this outcome and leaves this session, and these are the files that it
reads on the way. -/
def Session.ScansTo (files : FileTree) (session : Session) (paths : List Path) (root : Text) (reads : List Path)
    (outcome : Except SessionError ScanResult) (last : Session) : Prop :=
  ∃ schedule, ((Pool.start session paths).run files schedule).outcome? root = some outcome ∧
    (Pool.start session paths).reads files schedule = reads ∧
    ((Pool.start session paths).run files schedule).session = last

/-- A scan of the list has come to a report: a lookup is counted for every file that could be read, and every other one was
read, once for each time that it is listed. -/
structure Session.Reports (files : FileTree) (session : Session) (paths : List Path) (result : ScanResult)
    (reads : List Path) (last : Session) : Prop where
  lookups : last.stats.cache.hits + last.stats.cache.misses + result.errors =
    session.stats.cache.hits + session.stats.cache.misses + paths.length
  errors : result.errors = paths.countP (!files.isReadable session.config ·)
  reread : (reads.filter (!files.isReadable session.config ·)).Perm (paths.filter (!files.isReadable session.config ·))

/-- The list is scanned again, with nothing to learn: both tables and the misses stay as they are. The report is the same,
with a hit for every file that can be read, and only the others are read, unless the session is cancelled on the way. -/
structure Session.Repeats (files : FileTree) (session : Session) (paths : List Path) (result : ScanResult)
    (reads : List Path) (outcome : Except SessionError ScanResult) (last : Session) : Prop where
  entries : last.stats.cache.entries = session.stats.cache.entries
  generated : last.stats.cache.generated = session.stats.cache.generated
  misses : last.stats.cache.misses = session.stats.cache.misses
  unitsLoaded : last.stats.unitsLoaded = session.stats.unitsLoaded
  outcome : outcome = .ok result ∧
      last.stats.cache.hits + result.errors = session.stats.cache.hits + paths.length ∧
      reads.Perm (paths.filter (!files.isReadable session.config ·)) ∨
    last.token.cancelled = true ∧ (outcome = .error .interrupted ∨ outcome = .error (.classify .cancelled))

private theorem countP_delivered {config : Config} (hvalid : config.validate = .ok ())
    (hstop : ∀ path ∈ paths, stop? (files.verdictAt config path) = none) :
    (paths.map fun path => (⟨path, .delivered (files.verdictAt config path)⟩ : Job)).countP (·.stage.hasLooked) =
        paths.countP (files.isReadable config) ∧
      (paths.map fun path => (⟨path, .delivered (files.verdictAt config path)⟩ : Job)).countP (·.stage.isStopped) = 0 := by
  rw [List.countP_map, List.countP_map, List.countP_eq_zero]
  refine ⟨List.countP_congr fun path hmem => ?_, fun path hmem => ?_⟩
  · obtain ⟨-, ⟨verdict, hvalue, hreadable⟩ | ⟨error, hvalue, hreadable⟩⟩ :=
      FileTree.verdictAt_of_stop? hvalid (hstop path hmem)
    all_goals simp [hvalue, hreadable, JobStage.hasLooked]
  · obtain ⟨-, ⟨verdict, hvalue, -⟩ | ⟨error, hvalue, -⟩⟩ := FileTree.verdictAt_of_stop? hvalid (hstop path hmem)
    all_goals simp [hvalue, JobStage.isStopped]

private theorem countP_isReadable_add (files : FileTree) (config : Config) (paths : List Path) :
    paths.countP (files.isReadable config) + paths.countP (!files.isReadable config ·) = paths.length := by
  simpa using (List.length_eq_countP_add_countP (files.isReadable config)).symm

namespace Session.Agrees
variable {reads : List Path} {result : ScanResult} {last : Session}

/-- What a scan that comes to a report leaves behind. -/
theorem reports (h : session.Agrees files units) (hscan : session.ScansTo files paths root reads (.ok result) last) :
    session.Reports files paths result reads last ∧ last.config = session.config ∧
      (∃ units', last.Agrees files units') ∧ result.IsPartition files last.config paths root ∧
      ∀ path ∈ paths, stop? (files.verdictAt last.config path) = none ∧ last.IsReady files path := by
  obtain ⟨schedule, houtcome, rfl, rfl⟩ := hscan
  obtain ⟨units', hgrows, hpool⟩ := Pool.agrees_run (Pool.agrees_start h paths) schedule
  have hconfig : ((Pool.start session paths).run files schedule).session.config = session.config := hgrows.config
  have haccounts := Pool.accounts_run files session paths schedule
  obtain ⟨hjobs, hstop⟩ := hpool.jobs_of_ok houtcome
  have hpartition : result.IsPartition files session.config paths root := by
    rcases hpool.outcome_cases houtcome with ⟨found, hfound, hpartition, -⟩ | ⟨error, herror, -⟩
    · rw [Except.ok.inj hfound, ← hconfig]
      exact hpartition
    · simp at herror
  rw [hconfig] at hjobs hstop ⊢
  obtain ⟨hlooked, hstopped⟩ := countP_delivered h.valid hstop
  have hleast := haccounts.least
  have hmost := haccounts.most
  rw [hjobs, hlooked] at hleast
  rw [hjobs, hlooked, hstopped] at hmost
  have hcount := countP_isReadable_add files session.config paths
  refine ⟨⟨?_, hpartition.errors, Pool.reads_of_ok h houtcome⟩, rfl, ⟨units', hpool.session⟩, hpartition,
    fun path hmem => ⟨hstop path hmem, ?_⟩⟩
  · rw [hpartition.errors]
    simp only [stats, Cache.stats, Cache.lookups] at hleast hmost ⊢
    omega
  · obtain ⟨hresolved, ⟨verdict, hvalue, -⟩ | ⟨error, -, hunreadable⟩⟩ :=
      FileTree.verdictAt_of_stop? h.valid (hstop path hmem)
    · have hheld := haccounts.held ⟨path, .delivered (files.verdictAt session.config path)⟩
        (hjobs ▸ List.mem_map_of_mem hmem)
      rw [hvalue] at hheld
      exact .inl hheld
    · refine .inr ⟨?_, hconfig ▸ hunreadable⟩
      cases hfound : ((Pool.start session paths).run files schedule).session.units.find? (files.resolve path) with
      | none => rfl
      | some loaded =>
        have hunit := (hpool.session.loaded _ _ (UnitTable.mem_of_find? hfound)).2
        rw [← FileTree.unitAt_of_resolved hresolved, hconfig] at hunit
        simp [FileTree.isReadable, hunit] at hunreadable

/-- A list of which the session has nothing to learn, and of which no file ends a scan, is scanned. -/
theorem repeats (h : session.Agrees files units) (hresult : result.IsPartition files session.config paths root)
    (hready : ∀ path ∈ paths, stop? (files.verdictAt session.config path) = none ∧ session.IsReady files path)
    {outcome : Except SessionError ScanResult} (hscan : session.ScansTo files paths root reads outcome last) :
    session.Repeats files paths result reads outcome last := by
  obtain ⟨schedule, houtcome, rfl, rfl⟩ := hscan
  obtain ⟨units', hgrows, hpool⟩ := Pool.agrees_run (Pool.agrees_start h paths) schedule
  have hconfig : ((Pool.start session paths).run files schedule).session.config = session.config := hgrows.config
  have hstart : (Pool.start session paths).IsServed files session :=
    Pool.isServed_start fun path hmem => (hready path hmem).2
  obtain ⟨token, hstate⟩ := (hstart.run schedule).state
  have hstats := congrArg Session.stats hstate
  refine ⟨by rw [hstats]; rfl, by rw [hstats]; rfl, by rw [hstats]; rfl, by rw [hstats]; rfl, ?_⟩
  rcases hpool.outcome_cases houtcome with ⟨found, rfl, hfound, -⟩ | ⟨error, rfl, hfailure⟩
  · obtain ⟨hjobs, hstop⟩ := hpool.jobs_of_ok houtcome
    rw [hconfig] at hjobs hstop hfound
    obtain ⟨hlooked, -⟩ := countP_delivered h.valid hstop
    have hcount := countP_isReadable_add files session.config paths
    have hunread := hstart.not_isReadable schedule
    refine .inl ⟨congrArg Except.ok (hresult.unique hfound (.refl paths)), ?_, ?_⟩
    · rw [hstats, hjobs, hlooked, hresult.errors]
      simp only [stats, Cache.stats, served]
      omega
    · have hreads := Pool.reads_of_ok h houtcome
      rwa [List.filter_eq_self.mpr fun path hmem => by simp [hunread path hmem]] at hreads
  · rcases hpool.failure_cases hfailure with ⟨⟨rfl, -⟩ | rfl, hcancelled⟩ | ⟨path, hmem, fault, rfl, hstop⟩
    · exact .inr ⟨hcancelled, .inl rfl⟩
    · exact .inr ⟨hcancelled, .inr rfl⟩
    · rw [hconfig, (hready path hmem).1] at hstop
      simp at hstop

end Session.Agrees

/-- A scan that processes its files in order is one of these. -/
theorem Session.exists_scansTo (session : Session) (files : FileTree) (paths : List Path) (root : Text) (interrupt : Bool)
    (hworkers : 0 < session.config.maxWorkers) :
    ∃ reads, session.ScansTo files paths root reads (session.run files paths root interrupt).outcome
      (session.run files paths root interrupt).session := by
  obtain ⟨schedule, hsession, -, houtcome⟩ := session.exists_schedule files paths root interrupt hworkers
  exact ⟨_, schedule, houtcome, rfl, hsession⟩

/-- Scanning a list again is idempotent and answered from the cache, whatever was done with the session before, for every
list, any number of workers and any schedules of the two scans, the second of which comes to rest and then has an outcome.
The same holds of scans that process their files in order. -/
theorem Host.rescan_isCached (files : FileTree) {environment : Environment} {config : Option Config}
    {token : CancellationToken} (hstart : Session.start environment config token = .ok session)
    (operations : List Operation) (paths : List Path) (root : Text) :
    let before := (after files { session } operations).session
    (∀ reads result first, before.ScansTo files paths root reads (.ok result) first →
      before.Reports files paths result reads first ∧
      (∀ reads outcome last, first.ScansTo files paths root reads outcome last →
        first.Repeats files paths result reads outcome last) ∧
      (∀ schedule, (Pool.start first paths).IsEffective files schedule → schedule.length ≤ 15 * paths.length + 2) ∧
      ∀ schedule, ((Pool.start first paths).run files schedule).IsSettled files →
        ∃ outcome, ((Pool.start first paths).run files schedule).outcome? root = some outcome) ∧
    ∀ result, (before.run files paths root).outcome = .ok result →
      let first := (before.run files paths root).session
      let second := first.run files paths root
      ∃ reads reads', before.Reports files paths result reads first ∧
        first.Repeats files paths result reads' second.outcome second.session := by
  intro before
  obtain ⟨units, hagrees, -⟩ := exists_agrees files hstart operations
  have hbefore : before.Agrees files units := hagrees.session
  refine ⟨?_, ?_⟩
  · intro reads result first hscan
    obtain ⟨hreports, -, ⟨units', hfirst⟩, hpartition, hready⟩ := hbefore.reports hscan
    refine ⟨hreports, fun reads outcome last hagain => hfirst.repeats hpartition hready hagain,
      fun schedule heffective => ?_, fun schedule hsettled => ?_⟩
    · exact Nat.le_trans (Pool.length_le_work heffective) (Pool.work_start first paths)
    · obtain ⟨_, hgrows, -⟩ := Pool.agrees_run (Pool.agrees_start hfirst paths) schedule
      have hworkers := (Config.validate_ok hfirst.valid).1
      rw [← show _ = first.config from hgrows.config] at hworkers
      exact Pool.exists_outcome hworkers (Pool.dropsForCause_run first paths schedule) hsettled root
  · intro result houtcome first second
    obtain ⟨reads, hscan⟩ := before.exists_scansTo files paths root false (Config.validate_ok hbefore.valid).1
    rw [houtcome] at hscan
    obtain ⟨hreports, -, ⟨units', hfirst⟩, hpartition, hready⟩ := hbefore.reports hscan
    obtain ⟨reads', hagain⟩ := first.exists_scansTo files paths root false (Config.validate_ok hfirst.valid).1
    exact ⟨reads, reads', hreports, hfirst.repeats hpartition hready hagain⟩

/-- A file that is listed twice, classified before the first scan, and one that is missing. -/
theorem Host.rescan_isCached_missing :
    let files : FileTree := .single "a.cs".toList []
    let present : Path := ⟨[], ["a.cs".toList]⟩
    let paths : List Path := [present, ⟨[], ["b.cs".toList]⟩, present]
    let before := (after files { session := { config := {} } } [.classifyPath present]).session
    let result : ScanResult := ⟨3, ["a.cs".toList, "a.cs".toList], [], 1, []⟩
    let first := (before.run files paths []).session
    let second := first.run files paths []
    Session.start {} (some {}) {} = .ok { config := {} } ∧ (before.run files paths []).outcome = .ok result ∧
      second.session.token.cancelled = false ∧ ∃ reads reads', before.Reports files paths result reads first ∧
        first.Repeats files paths result reads' second.outcome second.session := by
  have hstart : Session.start {} (some {}) {} = .ok { config := {} } :=
    Session.start_eq_ok Config.validate_default {} {}
  intro files present paths before result first second
  have houtcome : (before.run files paths []).outcome = .ok result := eq_ok_of_toOption (by decide +kernel)
  have htoken : second.session.token.cancelled = false := by decide +kernel
  obtain ⟨-, hinOrder⟩ := rescan_isCached files hstart [.classifyPath present] paths []
  exact ⟨hstart, houtcome, htoken, hinOrder result houtcome⟩

end SourceOrigin
