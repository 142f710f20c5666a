import SourceOrigin.Proofs.Session.Partition

/-! The files that a scan reads on its way. A file that cannot be read is read once for each time that it is listed, and
nothing of it is kept, so every scan of the list reads it again. -/
namespace SourceOrigin
variable {files : FileTree} {units : UnitId → SyntaxTree} {paths : List Path}

def Job.read? (job : Job) : Option Path :=
  match job.stage with
  | .loading .reading => some job.path
  | _ => none

/-- The file could not be loaded. A path for which no location is found is none of these. -/
def Job.failed? (files : FileTree) (job : Job) : Option Path :=
  match job.stage with
  | .loading (.finished (.error _)) | .finished (.error (.load _)) | .delivered (.error (.load _)) =>
    if (files.resolutionError? job.path).isSome then none else some job.path
  | _ => none

namespace Pool

def read? (pool : Pool) : PoolEvent → Option Path
  | .step position => pool.jobs[position]?.bind (·.read?)
  | _ => none

def reads (files : FileTree) (pool : Pool) : List PoolEvent → List Path
  | [] => []
  | event :: events => (pool.read? event).toList ++ (pool.next files event).reads files events

end Pool

private theorem Job.failed?_afterLoading (path : Path) (stage : LoadStage) :
    Job.failed? files ⟨path, .afterLoading stage⟩ = Job.failed? files ⟨path, .loading stage⟩ := by
  cases stage with
  | finished outcome => cases outcome <;> rfl
  | _ => rfl

/-- A worker comes to a file that cannot be loaded by reading it. -/
theorem Job.failed?_step {session : Session} {job : Job} (h : job.Agrees files units session) :
    ((job.step files session).2.failed? files).toList =
      job.read?.toList.filter (!files.isReadable session.config ·) ++ (job.failed? files).toList := by
  obtain ⟨path, stage⟩ := job
  cases stage with
  | starting =>
    simp only [step]
    split
    · rfl
    split
    · next hfailed => simp [failed?, read?, hfailed]
    · rfl
  | loading stage =>
    obtain ⟨hresolved, -⟩ := h
    rw [step]
    dsimp only
    rw [failed?_afterLoading]
    cases stage with
    | lookup =>
      simp only [LoadCall.step]
      split <;> rfl
    | reading =>
      have hunit := FileTree.unitAt_of_resolved hresolved session.config
      rw [FileTree.unitIn] at hunit
      simp only [LoadCall.step, read?]
      cases hread : files.readUnit (Path.ofLocation (files.resolve path)) session.config.sourceEncoding with
      | ok unit =>
        have hreadable : files.isReadable session.config path = true := by simp only [FileTree.isReadable, hunit, hread]
        simp [failed?, hreadable]
      | error error =>
        have hunreadable : files.isReadable session.config path = false := by
          simp only [FileTree.isReadable, hunit, hread]
        simp [failed?, hunreadable, hresolved]
    | _ => rfl
  | classifying unit stage =>
    simp only [step, JobStage.afterClassifying]
    split
    · next outcome _ => cases outcome <;> rfl
    · rfl
  | _ => rfl

namespace Pool
variable {pool : Pool}

private theorem failed?_set {position : Nat} {old : Job} (hread : pool.jobs[position]? = some old) (new : Job)
    {found : List Path}
    (hnew : (new.failed? files).toList = found ++ (old.failed? files).toList) :
    ((pool.jobs.set position new).filterMap (·.failed? files)).Perm (found ++ pool.jobs.filterMap (·.failed? files)) := by
  have hset := filterMap_set_perm (·.failed? files) hread new
  rw [hnew, List.append_assoc] at hset
  exact (List.perm_append_left_iff _).mp (hset.trans (List.perm_append_comm_assoc _ _ _))

private theorem failed?_next {event : PoolEvent} (h : pool.Agrees files paths units) :
    ((pool.next files event).jobs.filterMap (·.failed? files)).Perm
      ((pool.read? event).toList.filter (!files.isReadable pool.session.config ·) ++
        pool.jobs.filterMap (·.failed? files)) := by
  cases event with
  | start =>
    cases hfound : pool.jobs.findIdx? (·.stage.isWaiting) with
    | none => simp [next, read?, hfound]
    | some position =>
      obtain ⟨path, hread, hnext⟩ := next_start files hfound
      rw [hnext]
      split
      · exact failed?_set hread ⟨path, .starting⟩ rfl
      · exact .refl _
  | step position =>
    cases hread : pool.jobs[position]? with
    | none => simp [next, read?, hread]
    | some job =>
      rw [next_step hread, read?, hread, Option.bind_some]
      exact failed?_set hread _ (Job.failed?_step (h.jobs job (List.mem_of_getElem? hread)))
  | collect position =>
    simp only [next]
    split
    · next path outcome _ hread =>
      refine failed?_set hread ⟨path, .delivered outcome⟩ ?_
      rcases outcome with (_ | _ | _) | _ <;> rfl
    · exact .refl _
  | drop position =>
    simp only [next]
    split
    · next path _ hread =>
      split
      · exact failed?_set hread ⟨path, .dropped⟩ rfl
      · exact .refl _
    · exact .refl _
  | cancel => exact .refl _
  | interrupt =>
    simp only [next]
    split <;> exact .refl _

/-- Of the files that cannot be read, a scan has read those that have failed since, and each as often. -/
theorem Agrees.failed?_run (h : pool.Agrees files paths units) (schedule : List PoolEvent) :
    ((pool.run files schedule).jobs.filterMap (·.failed? files)).Perm
      ((pool.reads files schedule).filter (!files.isReadable pool.session.config ·) ++
        pool.jobs.filterMap (·.failed? files)) := by
  induction schedule generalizing pool units with
  | nil => exact .refl _
  | cons event events ih =>
    obtain ⟨units', hgrows, hagrees⟩ := agrees_run h [event]
    have hconfig : (pool.next files event).session.config = pool.session.config := hgrows.config
    have hrest := @ih units' (pool.next files event) hagrees
    rw [hconfig] at hrest
    rw [reads, List.filter_append, List.append_assoc]
    exact (hrest.trans ((failed?_next h).append_left _)).trans (List.perm_append_comm_assoc _ _ _)

end Pool

private theorem FileTree.resolutionError?_of_stop? {config : Config} {path : Path}
    (hopen : stop? (files.verdictAt config path) = none) : files.resolutionError? path = none := by
  cases herror : files.resolutionError? path with
  | none => rfl
  | some error =>
    rw [verdictAt_of_error (unitAt_of_resolutionError herror config)] at hopen
    unfold resolutionError? at herror
    split at herror
    · rw [← Option.some.inj herror] at hopen
      simp [stop?] at hopen
    split at herror
    · rw [← Option.some.inj herror] at hopen
      simp [stop?] at hopen
    · simp at herror

/-- What a path stands for that does not end a scan: the verdict on its file, or the fault of it. -/
theorem FileTree.verdictAt_of_stop? {config : Config} (hvalid : config.validate = .ok ()) {path : Path}
    (hopen : stop? (files.verdictAt config path) = none) :
    files.resolutionError? path = none ∧
      ((∃ verdict, files.verdictAt config path = .ok verdict ∧ files.isReadable config path = true) ∨
        ∃ error, files.verdictAt config path = .error (.load error) ∧ files.isReadable config path = false) := by
  refine ⟨resolutionError?_of_stop? hopen, ?_⟩
  unfold isReadable
  rcases files.verdictAt_cases hvalid path with ⟨unit, verdict, hunit, -, hvalue⟩ | ⟨error, hunit, hvalue⟩
  · rw [hunit]
    exact .inl ⟨verdict, hvalue, rfl⟩
  · rw [hunit]
    exact .inr ⟨error, hvalue, rfl⟩

/-- A scan that comes to a report has read every file of the list that cannot be read, once for each time that it is
listed. -/
theorem Pool.reads_of_ok {session : Session} (h : session.Agrees files units) {schedule : List PoolEvent} {root : Text}
    {result : ScanResult}
    (houtcome : ((Pool.start session paths).run files schedule).outcome? root = some (.ok result)) :
    (((Pool.start session paths).reads files schedule).filter (!files.isReadable session.config ·)).Perm
      (paths.filter (!files.isReadable session.config ·)) := by
  obtain ⟨units', hgrows, hpool⟩ := agrees_run (agrees_start h paths) schedule
  obtain ⟨hjobs, hstop⟩ := hpool.jobs_of_ok houtcome
  have hconfig : ((Pool.start session paths).run files schedule).session.config = session.config := hgrows.config
  have hnothing : (Pool.start session paths).jobs.filterMap (·.failed? files) = [] := by
    simp [start, List.filterMap_map, Job.failed?]
  have hfailed : ∀ path ∈ paths,
      Job.failed? files ⟨path, .delivered (files.verdictAt session.config path)⟩ =
        Option.guard (!files.isReadable session.config ·) path := by
    intro path hmem
    have hopen := hconfig ▸ hstop path hmem
    obtain ⟨hresolved, ⟨verdict, hvalue, hreadable⟩ | ⟨error, hvalue, hreadable⟩⟩ :=
      FileTree.verdictAt_of_stop? h.valid hopen
    · simp [hvalue, Job.failed?, Option.guard, hreadable]
    · simp [hvalue, Job.failed?, Option.guard, hreadable, hresolved]
  have hreads := (agrees_start h paths).failed?_run schedule
  rw [hnothing, List.append_nil, hjobs, hconfig, List.filterMap_map] at hreads
  refine hreads.symm.trans (.of_eq ?_)
  rw [← List.filterMap_eq_filter]
  exact List.filterMap_congr hfailed

end SourceOrigin
