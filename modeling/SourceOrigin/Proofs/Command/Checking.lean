import SourceOrigin.Proofs.Command.Configuration
import SourceOrigin.Proofs.Command.Toolkit
import SourceOrigin.Proofs.FileTree.Resolution
import SourceOrigin.Proofs.Session.Partition
import SourceOrigin.Proofs.Session.Processed

/-! Checking files one after the other, in one session, is checking each for itself: what is shown of a file does not depend
on the files before it, and no file ends the check (`checkFiles_eq`). -/
namespace SourceOrigin

/-- Nobody cancels the session, so it gives the verdict on a path or the error of reading it. -/
theorem Session.Agrees.classifyPath_outcome {files : FileTree} {units : UnitId → SyntaxTree} {session : Session}
    (h : session.Agrees files units) (htoken : session.token.NeverTrips) (path : Path) :
    (session.classifyPath files path).outcome = files.verdictAt session.config path := by
  have hfollows := h.classifyPath_follows path
  rw [← Session.classifyPath_new]
  cases houtcome : (session.classifyPath files path).outcome with
  | ok verdict => exact (hfollows.value verdict houtcome).symm
  | error error =>
    cases error with
    | load error => exact ((hfollows.reading error).mp houtcome).symm
    | interrupted => exact absurd houtcome hfollows.uninterrupted
    | classify error =>
      obtain ⟨rfl, -⟩ := hfollows.cancelled error houtcome
      exact absurd houtcome (Session.classifyPath_of_neverTrips htoken files path).2

namespace Command
variable {files : FileTree} {config : Config}

def labelLine? (files : FileTree) (config : Config) (path : Text) : Option Text :=
  match files.verdictAt config (Path.ofText path) with
  | .ok verdict => some (verdictLine verdict path)
  | .error _ => none

/-- The line that says why a file has no unit. -/
def faultLine? (files : FileTree) (config : Config) (path : Text) : Option Text :=
  match files.unitAt config (Path.ofText path) with
  | .ok _ => none
  | .error error => some (errorLine error.message)

/-- A file has one of the two lines. -/
theorem line_cases (hvalid : config.validate = .ok ()) (hencoding : config.hasBuiltInEncoding = true)
    (hfiles : files.isNulFree = true) {path : Text} (hpath : files.resolutionError? (Path.ofText path) = none) :
    (∃ verdict, files.verdictAt config (Path.ofText path) = .ok verdict ∧
      labelLine? files config path = some (verdictLine verdict path) ∧ faultLine? files config path = none) ∨
    ∃ file fault, files.verdictAt config (Path.ofText path) = .error (.load (.unreadable file fault)) ∧
      labelLine? files config path = none ∧
      faultLine? files config path = some (errorLine (LoadError.unreadable file fault).message) := by
  unfold labelLine? faultLine?
  obtain ⟨hnul, hstraight⟩ := FileTree.resolutionError?_eq_none_iff.mp hpath
  rcases FileTree.unitAt_cases hfiles hnul config with ⟨error, haborts, -⟩ | ⟨-, ⟨unit, hunit⟩ | ⟨file, fault, hunit⟩⟩
  · exact absurd haborts (FileTree.not_abortsAt hencoding hstraight error)
  · obtain ⟨verdict, hverdict⟩ := exists_hasVerdict hvalid unit.tree
    have hvalue := FileTree.verdictAt_of_unit hunit hverdict
    refine .inl ⟨verdict, hvalue, ?_⟩
    simp only [hvalue, hunit, and_self]
  · have hvalue := FileTree.verdictAt_of_error hunit
    refine .inr ⟨file, fault, hvalue, ?_⟩
    simp only [hvalue, hunit, and_self]

/-- Every file is shown as if it were the only one. -/
theorem checkFiles_eq {units : UnitId → SyntaxTree} {session : Session} (h : session.Agrees files units)
    (htoken : session.token.NeverTrips) (hencoding : session.config.hasBuiltInEncoding = true)
    (hfiles : files.isNulFree = true) {paths : List Text}
    (hpaths : ∀ path ∈ paths, files.resolutionError? (Path.ofText path) = none) :
    checkFiles files session paths =
      { lines := paths.filterMap (labelLine? files session.config)
        errors := paths.filterMap (faultLine? files session.config) } := by
  induction paths generalizing session units with
  | nil => rfl
  | cons path rest ih =>
    have houtcome := h.classifyPath_outcome htoken (Path.ofText path)
    obtain ⟨units', hgrows, hagrees⟩ := h.classifyPath (Path.ofText path)
    have htoken' := (Session.classifyPath_of_neverTrips htoken files (Path.ofText path)).1
    have hconfig := hgrows.config
    have hrest := ih hagrees htoken' (hconfig ▸ hencoding) fun other hmem => hpaths other (List.mem_cons_of_mem path hmem)
    rw [hconfig] at hrest
    rw [checkFiles, List.filterMap_cons, List.filterMap_cons]
    rcases line_cases h.valid hencoding hfiles (hpaths path List.mem_cons_self) with
      ⟨verdict, hvalue, hlabel, hfault⟩ | ⟨file, fault, hvalue, hlabel, hfault⟩
    · rw [hvalue] at houtcome
      simp only [houtcome, hrest, hlabel, hfault]
    · rw [hvalue] at houtcome
      simp only [houtcome, hrest, hlabel, hfault]

/-- There is a line for the errors if some file has no unit. -/
theorem isEmpty_faultLines (files : FileTree) (config : Config) (paths : List Text) :
    (paths.filterMap (faultLine? files config)).isEmpty = true ↔
      ∀ path ∈ paths, files.isReadable config (Path.ofText path) = true := by
  rw [List.isEmpty_iff, List.filterMap_eq_nil_iff]
  refine forall_congr' fun path => imp_congr_right fun _ => ?_
  unfold faultLine? FileTree.isReadable
  cases files.unitAt config (Path.ofText path) <;> simp

/-- Files can be checked if there is at least one. -/
theorem accepted_check {world : World} (htoolkit : world.toolkit.IsFaithful) {paths : List Text} (hne : paths ≠ [])
    (hpaths : ∀ path ∈ paths, leadsTo world.files isFile path = true) :
    accepted world ("check".toList :: "--".toList :: paths) = some (.check false paths) := by
  rw [accepted, htoolkit.read_operands hne]
  exact Option.filter_eq_some_iff.mpr ⟨rfl, List.all_eq_true.mpr hpaths⟩

theorem run_of_accepted {world : World} {arguments : List Text} {invocation : Invocation}
    (h : accepted world arguments = some invocation) :
    run world arguments = world.shown (perform world invocation) ∧ invocation.isApplicable world.files = true := by
  refine ⟨?_, (Option.filter_eq_some_iff.mp h).2⟩
  rw [run, h]

theorem resolutionError?_of_leadsTo (hfiles : files.isNulFree = true) {wanted : FileNode → Bool} {path : Text}
    (h : leadsTo files wanted path = true) : files.resolutionError? (Path.ofText path) = none := by
  unfold leadsTo at h
  split at h
  · next hopened => exact FileTree.resolutionError?_of_open? hfiles hopened
  · simp at h

/-- A location is found for every file that is accepted for a check. -/
theorem resolutionError?_of_accepted {world : World} (hfiles : world.files.isNulFree = true) {arguments : List Text}
    {verbose : Bool}
    {paths : List Text} (h : accepted world arguments = some (.check verbose paths)) :
    ∀ path ∈ paths, world.files.resolutionError? (Path.ofText path) = none :=
  fun path hmem => resolutionError?_of_leadsTo hfiles (List.all_eq_true.mp (run_of_accepted h).2 path hmem)

/-- With a configuration that is accepted, a check shows the line of every file, and fails if a file has none for the
output. -/
theorem check_eq {world : World} (hfiles : world.files.isNulFree = true)
    (hloaded : loadConfig world.environment none = .ok config) {paths : List Text}
    (hpaths : ∀ path ∈ paths, world.files.resolutionError? (Path.ofText path) = none) (verbose : Bool) :
    check world verbose paths =
      { exitCode := if (paths.filterMap (faultLine? world.files config)).isEmpty then 0 else 1
        output := unlines (paths.filterMap (labelLine? world.files config))
        errors := unlines (paths.filterMap (faultLine? world.files config)) } := by
  have hvalid := validate_of_loadConfig hloaded
  have hnew : Session.Agrees world.files (fun _ => (SourceUnit.ofText []).tree) { config } :=
    Session.agrees_of_start (Session.start_eq_ok hvalid world.environment {}) _
  have hfound := checkFiles_eq hnew ⟨rfl, rfl⟩ (hasBuiltInEncoding_of_loadConfig hloaded) hfiles hpaths
  simp only [check, openSession_eq, hloaded, hfound, Findings.response]

end Command

end SourceOrigin
