import Mathlib.Logic.Function.Iterate
import SourceOrigin.Proofs.Cache.Transparency
import SourceOrigin.Proofs.FileTree.Reading
import SourceOrigin.Session.Scan

/-! What a path stands for, whatever a session has done before: the unit that its file is read as, and the verdict on
that unit. A configuration that is accepted always has a verdict (`exists_hasVerdict`), and a path has a unit, a file at
fault, or aborts what is done with it (`unitAt_cases`). -/
namespace SourceOrigin

def FileTree.unitIn (files : FileTree) (config : Config) (location : Location) : Except LoadError SourceUnit :=
  files.readUnit (Path.ofLocation location) config.sourceEncoding

/-- The unit of a path: its links are followed, and the file at the end of them is read. -/
def FileTree.unitAt (files : FileTree) (config : Config) (path : Path) : Except LoadError SourceUnit :=
  match files.resolutionError? path with
  | some error => .error error
  | none => files.unitIn config (files.resolve path)

theorem FileTree.unitAt_of_resolutionError {files : FileTree} {path : Path} {error : LoadError}
    (h : files.resolutionError? path = some error) (config : Config) : files.unitAt config path = .error error := by
  rw [unitAt, h]

theorem FileTree.unitAt_of_resolved {files : FileTree} {path : Path} (h : files.resolutionError? path = none)
    (config : Config) : files.unitAt config path = files.unitIn config (files.resolve path) := by
  rw [unitAt, h]

/-- The verdict on the unit of a path. Without a unit the error of reading stands in its place. -/
def FileTree.verdictAt (files : FileTree) (config : Config) (path : Path) : Except SessionError Bool :=
  match files.unitAt config path with
  | .error error => .error (.load error)
  | .ok unit => (classify config unit.tree {}).outcome.mapError .classify

/-- The path has no unit though its file is not at fault: its links lead in a circle, or the reading of it is aborted. -/
inductive FileTree.AbortsAt (files : FileTree) (config : Config) (path : Path) : LoadError → Prop where
  | circular : files.isCircular path = true →
      AbortsAt files config path (.circularLinks (Path.ofLocation (files.resolve path)).toText)
  | reading {error : LoadError} : files.isCircular path = false →
      files.AbortsReading (Path.ofLocation (files.resolve path)) config.sourceEncoding error →
      AbortsAt files config path error

def FileTree.NoneAborts (files : FileTree) (config : Config) (paths : List Path) : Prop :=
  ∀ path ∈ paths, ∀ error, ¬ files.AbortsAt config path error

/-- The outcome is the error at which one of the paths aborts. -/
def FileTree.AbortsScan {α : Type} (files : FileTree) (config : Config) (paths : List Path)
    (outcome : Except SessionError α) : Prop :=
  ∃ path ∈ paths, ∃ error, files.AbortsAt config path error ∧ outcome = .error (.load error)

section
variable {files : FileTree} {config : Config} {path : Path} (hfiles : files.isNulFree = true) (hpath : path.holdsNul = false)

theorem FileTree.AbortsAt.ne_unreadable {file : Text} {fault : ReadFault} :
    ¬ files.AbortsAt config path (.unreadable file fault) := by
  rintro (_ | ⟨-, haborts⟩)
  exact haborts.ne_unreadable

theorem FileTree.resolutionError?_of_circular (hpath : path.holdsNul = false) (h : files.isCircular path = true) :
    files.resolutionError? path = some (.circularLinks (Path.ofLocation (files.resolve path)).toText) := by
  rw [resolutionError?, hpath, h]
  rfl

include hfiles hpath

private theorem FileTree.AbortsAt.unitAt_eq {error : LoadError} (h : files.AbortsAt config path error) :
    files.unitAt config path = .error error := by
  cases h with
  | circular hcircular => exact unitAt_of_resolutionError (resolutionError?_of_circular hpath hcircular) config
  | reading hstraight haborts =>
    rw [unitAt_of_resolved (resolutionError?_eq_none_iff.mpr ⟨hpath, hstraight⟩)]
    exact haborts.readUnit_eq (holdsNul_resolve hfiles hpath)

/-- A path has a unit, or its file is at fault, unless it aborts. -/
theorem FileTree.unitAt_cases (config : Config) :
    (∃ error, files.AbortsAt config path error ∧ files.unitAt config path = .error error) ∨
      (∀ error, ¬ files.AbortsAt config path error) ∧ ((∃ unit, files.unitAt config path = .ok unit) ∨
        ∃ file fault, files.unitAt config path = .error (.unreadable file fault)) := by
  cases hcircular : files.isCircular path with
  | true => exact .inl ⟨_, .circular hcircular, AbortsAt.unitAt_eq hfiles hpath (.circular hcircular)⟩
  | false =>
    have hunit := unitAt_of_resolved (resolutionError?_eq_none_iff.mpr ⟨hpath, hcircular⟩) config
    rcases files.readUnit_cases (holdsNul_resolve hfiles hpath) config.sourceEncoding with
      ⟨unit, hread⟩ | ⟨file, fault, hread⟩ | ⟨error, haborts⟩
    · refine .inr ⟨fun error haborts => ?_, .inl ⟨unit, hunit.trans hread⟩⟩
      have hfails := haborts.unitAt_eq hfiles hpath
      rw [hunit, unitIn, hread] at hfails
      simp at hfails
    · refine .inr ⟨fun error haborts => ?_, .inr ⟨file, fault, hunit.trans hread⟩⟩
      have hfails := haborts.unitAt_eq hfiles hpath
      rw [hunit, unitIn, hread] at hfails
      obtain rfl := Except.error.inj hfails
      exact haborts.ne_unreadable
    · exact .inl ⟨error, .reading hcircular haborts, AbortsAt.unitAt_eq hfiles hpath (.reading hcircular haborts)⟩

end

theorem Config.validate_ok {config : Config} (h : config.validate = .ok ()) :
    0 < config.maxWorkers ∧ checkPatterns config.engine config.fileNamePatterns = .ok () ∧ config.logLevel ∈ logLevelNames := by
  unfold validate at h
  by_cases hworkers : config.maxWorkers ≤ 0
  · simp [hworkers] at h
  rw [if_neg hworkers] at h
  refine ⟨by omega, ?_⟩
  split at h
  · simp at h
  split at h
  · simp at h
  split at h
  · simp at h
  next hpatterns =>
  refine ⟨hpatterns, ?_⟩
  split at h
  · next hknown => exact List.contains_iff_mem.mp hknown
  · simp at h

private theorem exists_matchesSome {engine : Pattern.Engine} {patterns : List Text}
    (h : Config.checkPatterns engine patterns = .ok ()) (name : Text) :
    ∃ sign, matchesSome engine name patterns = .ok sign := by
  induction patterns with
  | nil => exact ⟨false, rfl⟩
  | cons written rest ih =>
    rw [Config.checkPatterns] at h
    rw [matchesSome]
    cases hcompile : Pattern.compile engine written with
    | error error => simp [hcompile] at h
    | ok occursIn =>
      simp only [hcompile] at h
      by_cases hoccurs : occursIn name = true
      · exact ⟨true, if_pos hoccurs⟩
      · obtain ⟨sign, hsign⟩ := ih h
        exact ⟨sign, (if_neg hoccurs).trans hsign⟩

theorem Config.validate_default : Config.validate {} = .ok () := eq_ok_of_toOption (by decide +kernel)

section
variable {config : Config} (hvalid : config.validate = .ok ()) (tree : SyntaxTree)
include hvalid

/-- No heuristic fails under a configuration that is accepted: all its patterns can be compiled. -/
theorem Heuristic.exists_holds (heuristic : Heuristic) : ∃ sign, heuristic.holds config tree = .ok sign := by
  cases heuristic with
  | fileName =>
    simp only [holds, isGeneratedFileName]
    split
    · exact ⟨false, rfl⟩
    · exact ⟨false, rfl⟩
    · exact exists_matchesSome (Config.validate_ok hvalid).2.1 _
  | headerComment => exact ⟨_, rfl⟩
  | emptiness => exact ⟨_, rfl⟩

theorem exists_outcomeBy (pending : List Heuristic) : ∃ verdict, outcomeBy config tree pending = .ok verdict := by
  induction pending with
  | nil => exact ⟨false, rfl⟩
  | cons heuristic rest ih =>
    obtain ⟨sign, hsign⟩ := heuristic.exists_holds hvalid tree
    rw [outcomeBy, hsign]
    cases sign with
    | true => exact ⟨true, rfl⟩
    | false => exact ih

theorem exists_hasVerdict : ∃ verdict, HasVerdict config tree verdict := by
  obtain ⟨verdict, hverdict⟩ := exists_outcomeBy hvalid tree Heuristic.all
  exact ⟨verdict, (hasVerdict_iff config tree verdict).mpr hverdict⟩

end

section
variable {files : FileTree} {config : Config} {path : Path} {unit : SourceUnit} {verdict : Bool}

theorem FileTree.verdictAt_of_unit (hunit : files.unitAt config path = .ok unit)
    (hverdict : HasVerdict config unit.tree verdict) : files.verdictAt config path = .ok verdict := by
  rw [HasVerdict] at hverdict
  rw [verdictAt, hunit]
  simp only [hverdict, mapError_ok]

theorem FileTree.verdictAt_of_error {error : LoadError} (h : files.unitAt config path = .error error) :
    files.verdictAt config path = .error (.load error) := by
  rw [verdictAt, h]

/-- There is a verdict if there is a unit, and the error of reading it otherwise. -/
theorem FileTree.verdictAt_cases (files : FileTree) (hvalid : config.validate = .ok ()) (path : Path) :
    (∃ unit verdict, files.unitAt config path = .ok unit ∧ HasVerdict config unit.tree verdict ∧
      files.verdictAt config path = .ok verdict) ∨
    ∃ error, files.unitAt config path = .error error ∧ files.verdictAt config path = .error (.load error) := by
  cases hunit : files.unitAt config path with
  | error error => exact .inr ⟨error, rfl, verdictAt_of_error hunit⟩
  | ok unit =>
    obtain ⟨verdict, hverdict⟩ := exists_hasVerdict hvalid unit.tree
    exact .inl ⟨unit, verdict, rfl, hverdict, verdictAt_of_unit hunit hverdict⟩

end

namespace CancellationToken

theorem cancelled_poll {token : CancellationToken} (h : token.cancelled = true) : token.poll.cancelled = true := by
  simp [poll, h]

end CancellationToken

/-- A classification comes to what the heuristics say, unless one of its polls finds the token cancelled. -/
theorem classifyBy_cases (config : Config) (tree : SyntaxTree) (token : CancellationToken) (pending : List Heuristic) :
    (classifyBy config tree token pending).outcome = outcomeBy config tree pending ∨
      (classifyBy config tree token pending).outcome = .error .cancelled ∧
        ∃ polls, 0 < polls ∧ (classifyBy config tree token pending).token = CancellationToken.poll^[polls] token ∧
          (CancellationToken.poll^[polls] token).cancelled = true := by
  induction pending generalizing token with
  | nil => exact .inl rfl
  | cons heuristic rest ih =>
    rw [classifyBy, outcomeBy]
    by_cases hcancelled : token.poll.cancelled = true
    · simp only [hcancelled, if_true]
      exact .inr ⟨trivial, 1, Nat.one_pos, rfl, hcancelled⟩
    simp only [hcancelled, Bool.false_eq_true, if_false]
    cases heuristic.holds config tree with
    | error error => exact .inl rfl
    | ok sign =>
      cases sign with
      | true => exact .inl rfl
      | false =>
        rcases ih token.poll with houtcome | ⟨houtcome, polls, hpos, htoken, hfound⟩
        · exact .inl houtcome
        · exact .inr ⟨houtcome, polls + 1, Nat.succ_pos polls, htoken, hfound⟩

end SourceOrigin
