import SourceOrigin.Proofs.Session.History
import SourceOrigin.Proofs.Text.Order

/-! A scan that nobody stops is an exact partition of its list, unless a path of the list aborts it: every file is in the list
of its verdict or counted as an error, once for each time that it is listed. The report does not depend on the order in which the files are finished, on
the number of workers, on the order of the list, or on what the session has done before. How else a scan can end is said
by `ScanEnds`. -/
namespace SourceOrigin
variable {files : FileTree} {units : UnitId → SyntaxTree} {config : Config} {paths : List Path} {root : Text}
  {session : Session}

def FileTree.isReadable (files : FileTree) (config : Config) (path : Path) : Bool :=
  match files.unitAt config path with
  | .ok _ => true
  | .error _ => false

def FileTree.isGenerated (files : FileTree) (config : Config) (path : Path) : Bool :=
  match files.unitAt config path with
  | .ok unit => isVerdict true ((classify config unit.tree {}).outcome.mapError .classify)
  | .error _ => false

/-- The report accounts for every path of the list, in the list of its verdict or as an error. -/
structure ScanResult.IsPartition (files : FileTree) (config : Config) (paths : List Path) (root : Text)
    (result : ScanResult) : Prop where
  scanned : result.filesScanned = paths.length
  total : result.filesScanned = result.generated.length + result.handwritten.length + result.errors
  listed : (result.generated ++ result.handwritten).Perm ((paths.filter (files.isReadable config)).map (·.toText))
  generated : result.generated.Perm ((paths.filter (files.isGenerated config)).map (·.toText))
  handwritten : result.handwritten.Perm
    ((paths.filter fun path => files.isReadable config path && !files.isGenerated config path).map (·.toText))
  errors : result.errors = paths.countP (!files.isReadable config ·)
  generatedSorted : result.generated.Pairwise (· ≤ ·)
  handwrittenSorted : result.handwritten.Pairwise (· ≤ ·)
  rootDirectory : result.rootDirectory = root

/-- A list of paths has one partition, and so has every list of the same paths. -/
theorem ScanResult.IsPartition.unique {result other : ScanResult} {listed : List Path}
    (h : result.IsPartition files config paths root) (h' : other.IsPartition files config listed root)
    (hperm : listed.Perm paths) : other = result := by
  have hsame (p : Path → Bool) : ((listed.filter p).map (·.toText)).Perm ((paths.filter p).map (·.toText)) :=
    (hperm.filter p).map _
  have hgenerated : other.generated = result.generated :=
    Text.eq_of_perm_of_pairwise ((h'.generated.trans (hsame _)).trans h.generated.symm) h'.generatedSorted
      h.generatedSorted
  have hhandwritten : other.handwritten = result.handwritten :=
    Text.eq_of_perm_of_pairwise ((h'.handwritten.trans (hsame _)).trans h.handwritten.symm) h'.handwrittenSorted
      h.handwrittenSorted
  have hscanned : other.filesScanned = result.filesScanned :=
    h'.scanned.trans (hperm.length_eq.trans h.scanned.symm)
  have herrors : other.errors = result.errors := h'.errors.trans ((hperm.countP_eq _).trans h.errors.symm)
  have hroot : other.rootDirectory = result.rootDirectory := h'.rootDirectory.trans h.rootDirectory.symm
  obtain ⟨scanned, generated, handwritten, errors, root⟩ := result
  obtain ⟨scanned', generated', handwritten', errors', root'⟩ := other
  simp_all

/-- What a path stands for, by the two predicates. -/
theorem FileTree.isVerdict_verdictAt (files : FileTree) (hvalid : config.validate = .ok ()) (path : Path) :
    isVerdict true (files.verdictAt config path) = files.isGenerated config path ∧
      isVerdict false (files.verdictAt config path) =
        (files.isReadable config path && !files.isGenerated config path) ∧
      (files.isGenerated config path = true → files.isReadable config path = true) := by
  unfold isGenerated isReadable
  rcases files.verdictAt_cases hvalid path with ⟨unit, verdict, hunit, hverdict, hvalue⟩ | ⟨error, hunit, hvalue⟩
  · rw [HasVerdict] at hverdict
    simp only [hunit, hvalue, hverdict, mapError_ok, isVerdict]
    cases verdict <;> simp
  · simp [hunit, hvalue, isVerdict]

private theorem filter_append_filter_perm {α : Type} {p q : α → Bool} (hpq : ∀ a, q a = true → p a = true) (list : List α) :
    (list.filter q ++ list.filter fun a => p a && !q a).Perm (list.filter p) := by
  have hnarrow : (list.filter p).filter q = list.filter q := by
    rw [List.filter_filter]
    refine List.filter_congr fun a _ => ?_
    cases hq : q a with
    | true => simp [hpq a hq]
    | false => simp
  have hwide : (list.filter p).filter (!q ·) = list.filter fun a => p a && !q a := by
    rw [List.filter_filter]
    exact List.filter_congr fun a _ => Bool.and_comm _ _
  rw [← hnarrow, ← hwide]
  exact List.filter_append_perm q (list.filter p)

/-- If the outcomes collected are what the paths stand for, in any order, and none of them ends the collecting, then the
report is a partition. -/
theorem isPartition_report (hvalid : config.validate = .ok ()) {collected : List (Path × Except SessionError Bool)}
    (hperm : collected.Perm (paths.map fun path => (path, files.verdictAt config path)))
    (hopen : (Tally.collect {} collected).2 = none) (root : Text) :
    ((Tally.collect {} collected).1.report paths.length root).IsPartition files config paths root := by
  obtain ⟨hgenerated, hhandwritten, herrors⟩ := Tally.collect_counts hopen
  have hverdict := files.isVerdict_verdictAt hvalid
  have hlist (verdict : Bool) : ((collected.filter (isVerdict verdict ·.2)).map (·.1.toText)).Perm
      ((paths.filter fun path => isVerdict verdict (files.verdictAt config path)).map (·.toText)) := by
    have hfiltered := (hperm.filter (isVerdict verdict ·.2)).map (·.1.toText)
    rwa [List.filter_map, List.map_map] at hfiltered
  have hgenerated' : (sortBy Text.le (Tally.collect {} collected).1.generated.reverse).Perm
      ((paths.filter (files.isGenerated config)).map (·.toText)) := by
    rw [hgenerated]
    refine (sortBy_perm _ _).trans ((hlist true).trans (.of_eq ?_))
    simp only [hverdict]
  have hhandwritten' : (sortBy Text.le (Tally.collect {} collected).1.handwritten.reverse).Perm
      ((paths.filter fun path => files.isReadable config path && !files.isGenerated config path).map (·.toText)) := by
    rw [hhandwritten]
    refine (sortBy_perm _ _).trans ((hlist false).trans (.of_eq ?_))
    simp only [hverdict]
  have herrors' : (Tally.collect {} collected).1.errors = paths.countP (!files.isReadable config ·) := by
    rw [herrors, Nat.zero_add, hperm.countP_eq, List.countP_map]
    refine List.countP_congr fun path _ => ?_
    have hpath := (hverdict path).2.2
    simp only [Function.comp_apply, hverdict]
    revert hpath
    generalize files.isReadable config path = readable
    generalize files.isGenerated config path = generated
    cases readable <;> cases generated <;> simp
  have hlisted : (sortBy Text.le (Tally.collect {} collected).1.generated.reverse ++
      sortBy Text.le (Tally.collect {} collected).1.handwritten.reverse).Perm
      ((paths.filter (files.isReadable config)).map (·.toText)) := by
    refine (hgenerated'.append hhandwritten').trans ?_
    rw [← List.map_append]
    exact (filter_append_filter_perm (fun path => (hverdict path).2.2) paths).map _
  refine ⟨rfl, ?_, hlisted, hgenerated', hhandwritten', herrors', Text.sortBy_pairwise _, Text.sortBy_pairwise _, rfl⟩
  have hlength := hlisted.length_eq
  rw [List.length_append, List.length_map, ← List.countP_eq_length_filter] at hlength
  calc
    paths.length = paths.countP (files.isReadable config) + paths.countP (!files.isReadable config ·) := by
      simpa using List.length_eq_countP_add_countP (files.isReadable config)
    _ = _ := by
      rw [← hlength, ← herrors']
      rfl

private theorem Pool.Agrees.jobs_eq {pool : Pool} (h : pool.Agrees files paths units) (hopen : pool.failure? = none)
    (hdelivered : ∀ job ∈ pool.jobs, job.stage.isDelivered = true) :
    pool.jobs = paths.map fun path => ⟨path, .delivered (files.verdictAt pool.session.config path)⟩ := by
  have hjob : ∀ job ∈ pool.jobs, ⟨job.path, .delivered (files.verdictAt pool.session.config job.path)⟩ = job := by
    rintro ⟨path, stage⟩ hmem
    have hstage := hdelivered _ hmem
    have hagrees := h.jobs _ hmem
    cases stage with
    | delivered outcome =>
      have hstop := h.stop?_eq_none hopen hmem
      rcases hagrees with hverdict | ⟨rfl, -⟩
      · rw [hverdict]
      · simp [stop?] at hstop
    | _ => simp [JobStage.isDelivered] at hstage
  rw [← h.paths, List.map_map]
  exact (List.map_id pool.jobs).symm.trans (List.map_congr_left fun job hmem => (hjob job hmem).symm)

/-- A scan that comes to a report has collected what every path of the list stands for, and nothing of it ends the
collecting. -/
theorem Pool.Agrees.outcome_cases {pool : Pool} (h : pool.Agrees files paths units)
    {outcome : Except SessionError ScanResult} (houtcome : pool.outcome? root = some outcome) :
    (∃ result, outcome = .ok result ∧ result.IsPartition files pool.session.config paths root ∧
      ∀ path ∈ paths, stop? (files.verdictAt pool.session.config path) = none) ∨
      ∃ error, outcome = .error error ∧ pool.failure? = some error := by
  obtain ⟨-, ⟨error, hfailure, rfl⟩ | ⟨hopen, hdelivered, rfl⟩⟩ := outcome?_cases houtcome
  · exact .inr ⟨error, rfl, hfailure⟩
  have hcollecting : (Tally.collect {} pool.collected).2 = none := by
    unfold failure? at hopen
    split at hopen
    · simp at hopen
    · exact hopen
  have hperm : pool.collected.Perm (paths.map fun path => (path, files.verdictAt pool.session.config path)) := by
    refine h.collected.trans (.of_eq ?_)
    rw [h.jobs_eq hopen hdelivered, List.filterMap_map]
    exact congrFun List.filterMap_eq_map paths
  have hlength : pool.jobs.length = paths.length := by rw [← h.paths, List.length_map]
  rw [hlength]
  refine .inl ⟨_, rfl, isPartition_report h.session.valid hperm hcollecting root, fun path hpath => ?_⟩
  rw [Tally.collect_error, List.findSome?_eq_none_iff] at hcollecting
  exact hcollecting (path, _) (hperm.mem_iff.mpr (List.mem_map_of_mem hpath))

/-- The files of a scan that has come to a report, and that none of them ends a scan. -/
theorem Pool.Agrees.jobs_of_ok {pool : Pool} (h : pool.Agrees files paths units) {result : ScanResult}
    (houtcome : pool.outcome? root = some (.ok result)) :
    pool.jobs = paths.map (fun path => ⟨path, .delivered (files.verdictAt pool.session.config path)⟩) ∧
      ∀ path ∈ paths, stop? (files.verdictAt pool.session.config path) = none := by
  rcases h.outcome_cases houtcome with ⟨-, -, -, hstop⟩ | ⟨error, herror, -⟩
  · obtain ⟨-, ⟨error, -, herror⟩ | ⟨hopen, hdelivered, -⟩⟩ := outcome?_cases houtcome
    · simp at herror
    · exact ⟨h.jobs_eq hopen hdelivered, hstop⟩
  · simp at herror

/-- What scanning a list can end in: a partition of the list, a cancellation or an interruption, unless one of its paths
aborts. -/
inductive ScanEnds (files : FileTree) (config : Config) (paths : List Path) (root : Text) (token : CancellationToken)
    (interrupted : Bool) : Except SessionError ScanResult → Prop where
  | report (result : ScanResult) : files.NoneAborts config paths → result.IsPartition files config paths root →
      ScanEnds files config paths root token interrupted (.ok result)
  | cancelled : token.cancelled = true →
      ScanEnds files config paths root token interrupted (.error (.classify .cancelled))
  | interrupted : interrupted = true → token.cancelled = true →
      ScanEnds files config paths root token interrupted (.error .interrupted)
  | aborted {path : Path} {error : LoadError} : path ∈ paths → files.AbortsAt config path error →
      ScanEnds files config paths root token interrupted (.error (.load error))

private theorem ScanEnds.of_interrupted {token : CancellationToken} {interrupted other : Bool}
    {outcome : Except SessionError ScanResult} (h : ScanEnds files config paths root token interrupted outcome)
    (hother : interrupted = true → other = true) : ScanEnds files config paths root token other outcome := by
  cases h with
  | report result hnone hpartition => exact .report result hnone hpartition
  | cancelled hcancelled => exact .cancelled hcancelled
  | interrupted hinterrupted hcancelled => exact .interrupted (hother hinterrupted) hcancelled
  | aborted hmem haborts => exact .aborted hmem haborts

/-- A path that aborts ends the collecting, and nothing else of a path does. -/
theorem FileTree.stop?_verdictAt_cases (hvalid : config.validate = .ok ()) (hfiles : files.isNulFree = true) {path : Path}
    (hpath : path.holdsNul = false) :
    (∃ error, files.AbortsAt config path error ∧ stop? (files.verdictAt config path) = some (.load error)) ∨
      (∀ error, ¬ files.AbortsAt config path error) ∧ stop? (files.verdictAt config path) = none := by
  rcases unitAt_cases hfiles hpath config with ⟨error, haborts, hread⟩ | ⟨hnone, ⟨unit, hread⟩ | ⟨file, fault, hread⟩⟩
  · rw [verdictAt_of_error hread]
    refine .inl ⟨error, haborts, stop?_error fun file fault heq => ?_⟩
    obtain rfl := SessionError.load.inj heq
    exact haborts.ne_unreadable
  · obtain ⟨verdict, hverdict⟩ := exists_hasVerdict hvalid unit.tree
    rw [verdictAt_of_unit hread hverdict]
    exact .inr ⟨hnone, rfl⟩
  · rw [verdictAt_of_error hread]
    exact .inr ⟨hnone, rfl⟩

theorem Pool.Agrees.scanEnds {pool : Pool} (h : pool.Agrees files paths units) (hfiles : files.isNulFree = true)
    (hpaths : ∀ path ∈ paths, path.holdsNul = false) {outcome : Except SessionError ScanResult}
    (houtcome : pool.outcome? root = some outcome) :
    ScanEnds files pool.session.config paths root pool.session.token pool.interrupted outcome := by
  rcases h.outcome_cases houtcome with ⟨result, rfl, hresult, hopen⟩ | ⟨error, rfl, hfailure⟩
  · refine .report result (fun path hmem => ?_) hresult
    rcases FileTree.stop?_verdictAt_cases h.session.valid hfiles (hpaths path hmem) with ⟨error, -, hstop⟩ | ⟨hnone, -⟩
    · exact absurd ((hopen path hmem).symm.trans hstop) (Option.some_ne_none _).symm
    · exact hnone
  · rcases h.failure_cases hfailure with ⟨⟨rfl, hinterrupted⟩ | rfl, hcancelled⟩ | ⟨path, hmem, fault, -, hstop⟩
    · exact .interrupted hinterrupted hcancelled
    · exact .cancelled hcancelled
    · rcases FileTree.stop?_verdictAt_cases h.session.valid hfiles (hpaths path hmem) with
        ⟨error, haborts, haborted⟩ | ⟨-, hnone⟩
      · rw [Option.some.inj (hstop.symm.trans haborted)]
        exact .aborted hmem haborts
      · exact absurd (hnone.symm.trans hstop) (Option.some_ne_none _).symm

/-- A scan that processes its files in order ends as a pool of workers can end. -/
theorem Session.Agrees.scanEnds (h : session.Agrees files units) (hfiles : files.isNulFree = true)
    (hpaths : ∀ path ∈ paths, path.holdsNul = false) (root : Text) (interrupt : Bool) :
    ScanEnds files session.config paths root (session.run files paths root interrupt).session.token interrupt
      (session.run files paths root interrupt).outcome := by
  have hworkers := (Config.validate_ok h.valid).1
  obtain ⟨schedule, hsession, hinterrupted, houtcome⟩ :=
    session.exists_schedule files paths root interrupt hworkers
  obtain ⟨units', hgrows, hpool⟩ := Pool.agrees_run (Pool.agrees_start h paths) schedule
  have hends := hpool.scanEnds hfiles hpaths houtcome
  rw [hgrows.config, hsession] at hends
  exact hends.of_interrupted hinterrupted

/-- What a scan that is not cancelled comes to: it collects a partition, unless one of its paths aborts. -/
theorem ScanEnds.cases_of_running {token : CancellationToken} {interrupted : Bool}
    {outcome : Except SessionError ScanResult}
    (h : ScanEnds files config paths root token interrupted outcome) (hrunning : token.cancelled = false) :
    (files.NoneAborts config paths ∧ ∃ result, outcome = .ok result ∧ result.IsPartition files config paths root) ∨
      files.AbortsScan config paths outcome := by
  cases h with
  | report result hnone hpartition => exact .inl ⟨hnone, result, rfl, hpartition⟩
  | cancelled hcancelled => exact absurd (hrunning.symm.trans hcancelled) Bool.false_ne_true
  | interrupted hinterrupted hcancelled => exact absurd (hrunning.symm.trans hcancelled) Bool.false_ne_true
  | aborted hmem haborts => exact .inr ⟨_, hmem, _, haborts, rfl⟩

private theorem FileTree.NoneAborts.not_abortsScan {α : Type} {outcome : Except SessionError α}
    (h : files.NoneAborts config paths) :
    ¬ files.AbortsScan config paths outcome := by
  rintro ⟨path, hmem, error, haborts, -⟩
  exact h path hmem error haborts

theorem ScanEnds.exists_ok {token : CancellationToken} {interrupted : Bool} {outcome : Except SessionError ScanResult}
    (h : ScanEnds files config paths root token interrupted outcome) (hnone : files.NoneAborts config paths)
    (hrunning : token.cancelled = false) :
    ∃ result, outcome = .ok result ∧ result.IsPartition files config paths root := by
  rcases h.cases_of_running hrunning with ⟨-, hpartition⟩ | haborts
  · exact hpartition
  · exact absurd haborts hnone.not_abortsScan

/-- The encoding of source files is one of those that are built in. -/
def Config.hasBuiltInEncoding (config : Config) : Bool :=
  !config.sourceEncoding.contains '\x00' && (Encoding.ofName? config.sourceEncoding).isSome

/-- In such an encoding a path aborts only if its links lead in a circle. -/
theorem FileTree.not_abortsAt {path : Path} (hencoding : config.hasBuiltInEncoding = true)
    (hstraight : files.isCircular path = false) (error : LoadError) : ¬ files.AbortsAt config path error := by
  rw [Config.hasBuiltInEncoding, Bool.and_eq_true, Bool.not_eq_true', Option.isSome_iff_ne_none] at hencoding
  rintro (hcircular | ⟨-, haborts⟩)
  · exact absurd (hstraight.symm.trans hcircular) Bool.false_ne_true
  · cases haborts with
    | nul hnul => exact absurd (hencoding.1.symm.trans hnul) Bool.false_ne_true
    | unknown _ _ hname => exact absurd hname hencoding.2
    | binary _ _ hname => exact absurd hname hencoding.2
    | failure _ _ hname => exact absurd hname hencoding.2

theorem FileTree.noneAborts_of_resolved (hencoding : config.hasBuiltInEncoding = true)
    (hpaths : ∀ path ∈ paths, files.resolutionError? path = none) : files.NoneAborts config paths :=
  fun path hmem => not_abortsAt hencoding (resolutionError?_eq_none_iff.mp (hpaths path hmem)).2

/-- The number of workers has no part in what a list is partitioned into. -/
theorem ScanResult.IsPartition.withWorkers {workers : Int} {result : ScanResult}
    (h : result.IsPartition files { config with maxWorkers := workers } paths root) :
    result.IsPartition files config paths root :=
  ⟨h.scanned, h.total, h.listed, h.generated, h.handwritten, h.errors, h.generatedSorted, h.handwrittenSorted,
    h.rootDirectory⟩

end SourceOrigin
