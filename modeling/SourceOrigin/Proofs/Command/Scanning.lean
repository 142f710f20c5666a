import SourceOrigin.Proofs.Command.Configuration
import SourceOrigin.Proofs.FileTree.Resolution
import SourceOrigin.Proofs.Session.Partition
import SourceOrigin.Proofs.Session.Processed

/-! What the scan of a command comes to. It has a session of its own, which only the user can cancel: an interrupted scan
ends as interrupted, and any other with the one report that there is, whether the files are processed in order or by the
workers of a pool. -/
namespace SourceOrigin
variable {files : FileTree} {config : Config} {paths : List Path}

/-- The user interrupts the scan, or the token of the session is not cancelled. -/
def Pool.IsUndisturbed (pool : Pool) : Prop := pool.interrupted = false → pool.session.token.NeverTrips

def IsUncancelled (schedule : List PoolEvent) : Prop := ∀ event ∈ schedule, event ≠ .cancel

namespace Pool

theorem IsUndisturbed.next {pool : Pool} (h : pool.IsUndisturbed) (files : FileTree) {event : PoolEvent}
    (hevent : event ≠ .cancel) : (pool.next files event).IsUndisturbed := by
  cases event with
  | cancel => exact absurd rfl hevent
  | step position =>
    cases hread : pool.jobs[position]? with
    | none => simpa only [Pool.next, hread] using h
    | some job =>
      rw [next_step hread]
      intro hinterrupted
      change ((job.step files pool.session).1.token).NeverTrips
      rcases job.step_token files pool.session with htoken | htoken
      · rw [htoken]
        exact h hinterrupted
      · rw [htoken]
        exact (h hinterrupted).poll
  | start =>
    simp only [Pool.next]
    split
    · exact h
    split <;> exact h
  | collect position =>
    simp only [Pool.next]
    split <;> exact h
  | drop position =>
    simp only [Pool.next]
    split
    · split <;> exact h
    · exact h
  | interrupt =>
    simp only [Pool.next]
    split
    · exact h
    · intro hinterrupted
      simp at hinterrupted

theorem IsUndisturbed.run {pool : Pool} (h : pool.IsUndisturbed) (files : FileTree) {schedule : List PoolEvent}
    (hschedule : IsUncancelled schedule) : (pool.run files schedule).IsUndisturbed := by
  induction schedule generalizing pool with
  | nil => exact h
  | cons event rest ih =>
    apply ih
    · exact h.next files (hschedule event List.mem_cons_self)
    · exact fun later hmem => hschedule later (List.mem_cons_of_mem event hmem)

end Pool

section
variable (hvalid : config.validate = .ok ()) (hencoding : config.hasBuiltInEncoding = true)
  (hfiles : files.isNulFree = true) (hpaths : ∀ path ∈ paths, files.resolutionError? path = none)
include hvalid

private theorem Session.agrees_new (files : FileTree) (units : UnitId → SyntaxTree) :
    Session.Agrees files units { config } :=
  agrees_of_start (start_eq_ok hvalid {} {}) units

include hencoding hfiles hpaths

/-- The scan of a new session comes to its report, unless it is interrupted before its end. -/
theorem Session.run_new (root : Text) (interrupt : Bool) :
    (interrupt = true ∧ paths ≠ []) ∧ (Session.run { config } files paths root interrupt).outcome = .error .interrupted ∨
    ¬ (interrupt = true ∧ paths ≠ []) ∧ ∃ result, result.IsPartition files config paths root ∧
      (Session.run { config } files paths root interrupt).outcome = .ok result := by
  by_cases hinterrupted : interrupt = true ∧ paths ≠ []
  · refine .inl ⟨hinterrupted, ?_⟩
    rw [hinterrupted.1]
    exact (Session.run_of_interrupt { config } files hinterrupted.2 root).2
  have hrunning : (Session.run { config } files paths root interrupt).session.token.cancelled = false := by
    by_cases hempty : paths = []
    · rw [hempty]
      rfl
    · obtain rfl : interrupt = false := by simpa [hempty] using hinterrupted
      rw [(Session.run_of_no_interrupt { config } files hempty root).1]
      exact (Session.neverTrips_processFiles ⟨rfl, rfl⟩ files paths).cancelled
  have hnul := fun path hmem => (FileTree.resolutionError?_eq_none_iff.mp (hpaths path hmem)).1
  have hends := (agrees_new hvalid files fun _ => (SourceUnit.ofText []).tree).scanEnds hfiles hnul root interrupt
  obtain ⟨result, houtcome, hresult⟩ := hends.exists_ok (FileTree.noneAborts_of_resolved hencoding hpaths) hrunning
  exact .inr ⟨hinterrupted, result, hresult, houtcome⟩

omit hencoding hfiles hpaths in
/-- A scan of a new session that comes to rest has an outcome. -/
theorem Pool.exists_outcome_new {schedule : List PoolEvent}
    (hsettled : ((Pool.start { config } paths).run files schedule).IsSettled files) (root : Text) :
    ∃ outcome, ((Pool.start { config } paths).run files schedule).outcome? root = some outcome := by
  have hnew := Session.agrees_new hvalid files fun _ => (SourceUnit.ofText []).tree
  obtain ⟨units, -, hagrees⟩ := Pool.agrees_run (Pool.agrees_start hnew paths) schedule
  have hworkers := (Config.validate_ok hagrees.session.valid).1
  exact Pool.exists_outcome hworkers (Pool.dropsForCause_run { config } paths schedule) hsettled root

/-- A pool of workers comes to the same, whatever the schedule. -/
theorem Pool.outcome_new {schedule : List PoolEvent} (hschedule : IsUncancelled schedule) {root : Text}
    {outcome : Except SessionError ScanResult}
    (houtcome : ((Pool.start { config } paths).run files schedule).outcome? root = some outcome) :
    ((Pool.start { config } paths).run files schedule).interrupted = true ∧ outcome = .error .interrupted ∨
    ((Pool.start { config } paths).run files schedule).interrupted = false ∧
      ∃ result, result.IsPartition files config paths root ∧ outcome = .ok result := by
  have hstart : (Pool.start { config } paths).IsUndisturbed := fun _ => ⟨rfl, rfl⟩
  have hundisturbed := hstart.run files hschedule
  have hnew := Session.agrees_new hvalid files fun _ => (SourceUnit.ofText []).tree
  obtain ⟨units, hgrows, hagrees⟩ := Pool.agrees_run (Pool.agrees_start hnew paths) schedule
  cases hinterrupted : ((Pool.start { config } paths).run files schedule).interrupted with
  | true =>
    refine .inl ⟨rfl, ?_⟩
    have hfailure : ((Pool.start { config } paths).run files schedule).failure? = some .interrupted :=
      if_pos hinterrupted
    obtain ⟨-, ⟨error, herror, rfl⟩ | ⟨hopen, -⟩⟩ := outcome?_cases houtcome
    · rw [Option.some.inj (herror.symm.trans hfailure)]
    · simp [hfailure] at hopen
  | false =>
    have hnul := fun path hmem => (FileTree.resolutionError?_eq_none_iff.mp (hpaths path hmem)).1
    have hends := hagrees.scanEnds hfiles hnul houtcome
    rw [hgrows.config] at hends
    have hnone : files.NoneAborts config paths := FileTree.noneAborts_of_resolved hencoding hpaths
    obtain ⟨result, rfl, hresult⟩ := hends.exists_ok hnone (hundisturbed hinterrupted).cancelled
    exact .inr ⟨rfl, result, hresult, rfl⟩

/-- Without an interruption this is the report of a scan that processes the files in order. -/
theorem Pool.outcome_eq_report {root : Text} {result : ScanResult} (hresult : result.IsPartition files config paths root)
    {schedule : List PoolEvent} (hschedule : IsUncancelled schedule)
    (hrunning : ((Pool.start { config } paths).run files schedule).interrupted = false) :
    (∀ outcome, ((Pool.start { config } paths).run files schedule).outcome? root = some outcome → outcome = .ok result) ∧
      (((Pool.start { config } paths).run files schedule).IsSettled files →
        ((Pool.start { config } paths).run files schedule).outcome? root = some (.ok result)) := by
  have hreport : ∀ outcome, ((Pool.start { config } paths).run files schedule).outcome? root = some outcome →
      outcome = .ok result := by
    intro outcome houtcome
    obtain ⟨hinterrupted, -⟩ | ⟨-, found, hfound, rfl⟩ :=
      Pool.outcome_new hvalid hencoding hfiles hpaths hschedule houtcome
    · exact absurd (hinterrupted.symm.trans hrunning) Bool.noConfusion
    · rw [hresult.unique hfound (.refl paths)]
  refine ⟨hreport, fun hsettled => ?_⟩
  obtain ⟨outcome, houtcome⟩ := Pool.exists_outcome_new hvalid hsettled root
  rw [houtcome, hreport outcome houtcome]

end

namespace Command

/-- With a configuration that is accepted, a scan shows what the run over the source files below the directory comes
to. -/
theorem scan_eq {world : World} (hfiles : world.files.isNulFree = true) {request : ScanRequest}
    (hloaded : loadConfig world.environment request.workers = .ok config)
    (hdirectory : world.files.resolutionError? (Path.ofText request.directory) = none) :
    let root := Path.ofLocation (world.files.resolve (Path.ofText request.directory))
    ∃ paths skipped, world.files.sourceFiles config root = .ok (paths, skipped) ∧
      (∀ path ∈ paths, world.files.resolutionError? path = none) ∧
      scan world request = scanResponse request world.seconds
        (Session.run { config } world.files paths root.toText world.interrupt).outcome := by
  intro root
  obtain ⟨hnul, -⟩ := FileTree.resolutionError?_eq_none_iff.mp hdirectory
  obtain ⟨paths, skipped, hfound, -⟩ := FileTree.exists_sourceFiles hfiles config hnul
  refine ⟨paths, skipped, hfound, fun path => FileTree.resolutionError?_of_mem_sourceFiles hfiles hfound, ?_⟩
  simp only [scan, openSession_eq, hloaded, Session.scan, hdirectory, hfound]
  rfl

end Command

end SourceOrigin
