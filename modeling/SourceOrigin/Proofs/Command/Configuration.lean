import SourceOrigin.Command.Run
import SourceOrigin.Proofs.Outcome
import SourceOrigin.Proofs.Session.Partition
import SourceOrigin.Proofs.Text.Numeral

/-! The configuration of a command. It is refused for one of five reasons (`IsRefused`), and then nothing is opened; every
other configuration gets a session, and no step on the way to it fails in another manner (`openSession_eq`). -/
namespace SourceOrigin

namespace Command

/-- The number that a setting stands for: that of its literal, which must not be too long, or the default. -/
inductive Holds (default : Int) : Option Text → Int → Prop where
  | unset : Holds default none default
  | written {text : Text} {values : List Nat} {n : Int} : Text.IsLiteral text values n →
      values.length ≤ Text.maxDigits → Holds default (some text) n

def levelOf (environment : Environment) : Text := (environment.logLevel.map Text.upper).getD "INFO".toList

/-- The environment and the number of workers that is asked for make up no configuration that can be worked with. -/
inductive IsRefused (environment : Environment) (workers : Option Int) : Prop where
  | workersUnreadable : (∀ n, ¬ Holds 8 environment.maxWorkers n) → IsRefused environment workers
  | sizeUnreadable : (∀ n, ¬ Holds 5 environment.maxFileSizeMb n) → IsRefused environment workers
  | workersNotPositive {n : Int} : Holds 8 environment.maxWorkers n → workers.getD n ≤ 0 →
      IsRefused environment workers
  | sizeNotPositive {n : Int} : Holds 5 environment.maxFileSizeMb n → n ≤ 0 → IsRefused environment workers
  | levelUnknown : levelOf environment ∉ logLevelNames → IsRefused environment workers

private theorem numberIn_eq_ok_iff (setting : Option Text) (default n : Int) :
    Config.numberIn setting default = .ok n ↔ Holds default setting n := by
  cases setting with
  | none =>
    refine ⟨fun h => ?_, fun h => ?_⟩
    · rw [← Except.ok.inj h]
      exact .unset
    · cases h
      rfl
  | some text =>
    rw [Config.numberIn, mapError_eq_ok_iff, Text.readInt_eq_ok_iff]
    constructor
    · rintro ⟨values, hliteral, hfew⟩
      exact .written hliteral hfew
    · rintro (_ | ⟨hliteral, hfew⟩)
      exact ⟨_, hliteral, hfew⟩

/-- A setting stands for one number. -/
theorem Holds.unique {setting : Option Text} {default n m : Int} (h : Holds default setting n)
    (h' : Holds default setting m) : n = m := by
  rw [← numberIn_eq_ok_iff] at h h'
  exact Except.ok.inj (h.symm.trans h')

def settingsOf (workers megabytes : Int) (level : Text) : Config :=
  { maxWorkers := workers, maxFileSizeMb := megabytes, logLevel := level }

private theorem ofEnvironment_eq_ok_iff (environment : Environment) (config : Config) :
    Config.ofEnvironment environment = .ok config ↔ ∃ workers megabytes, Holds 8 environment.maxWorkers workers ∧
      Holds 5 environment.maxFileSizeMb megabytes ∧ settingsOf workers megabytes (levelOf environment) = config := by
  unfold Config.ofEnvironment
  simp only [bind_eq_ok_iff, numberIn_eq_ok_iff]
  constructor
  · rintro ⟨workers, hworkers, megabytes, hmegabytes, hconfig⟩
    exact ⟨workers, megabytes, hworkers, hmegabytes, Except.ok.inj hconfig⟩
  · rintro ⟨workers, megabytes, hworkers, hmegabytes, rfl⟩
    exact ⟨workers, hworkers, megabytes, hmegabytes, rfl⟩

private theorem checkPatterns_default : Config.checkPatterns ({} : Config).engine ({} : Config).fileNamePatterns = .ok () :=
  eq_ok_of_toOption (by decide +kernel)

private theorem validate_settingsOf (workers megabytes : Int) (level : Text) :
    (settingsOf workers megabytes level).validate = .ok () ↔ 0 < workers ∧ 0 < megabytes ∧ level ∈ logLevelNames := by
  have hmarkers : (({} : Config).headerMarkers.isEmpty || ({} : Config).headerMarkers.any (·.isEmpty)) = false := by
    decide
  have hpatterns := checkPatterns_default
  unfold Config.validate settingsOf
  by_cases hworkers : workers ≤ 0
  · simp [hworkers]
  by_cases hmegabytes : megabytes ≤ 0
  · simp [hworkers, hmegabytes]
  simp only [hworkers, hmegabytes, if_false, hmarkers, Bool.false_eq_true, hpatterns]
  have hlevel : logLevelNames.contains level = true ↔ level ∈ logLevelNames := List.contains_iff_mem
  split
  · next hknown => simp [hlevel.mp hknown, not_le.mp hworkers, not_le.mp hmegabytes]
  · next hunknown => simpa using fun _ _ => mt hlevel.mpr hunknown

private theorem exists_refused_of_validate {workers megabytes : Int} {level : Text} {error : ValidationError}
    (h : (settingsOf workers megabytes level).validate = .error error) : ∃ refused, error = .refused refused := by
  have hpatterns : Config.checkPatterns (settingsOf workers megabytes level).engine
      (settingsOf workers megabytes level).fileNamePatterns = .ok () := checkPatterns_default
  unfold Config.validate at h
  rw [hpatterns] at h
  split at h
  · exact ⟨_, (Except.error.inj h).symm⟩
  split at h
  · exact ⟨_, (Except.error.inj h).symm⟩
  split at h
  · exact ⟨_, (Except.error.inj h).symm⟩
  dsimp only at h
  split at h
  · simp at h
  · exact ⟨_, (Except.error.inj h).symm⟩

/-- A configuration is loaded if its numbers can be read and are positive, and its log level is known. -/
theorem loadConfig_eq_ok_iff (environment : Environment) (workers : Option Int) (config : Config) :
    loadConfig environment workers = .ok config ↔ ∃ own megabytes,
      Holds 8 environment.maxWorkers own ∧ Holds 5 environment.maxFileSizeMb megabytes ∧
      (0 < workers.getD own ∧ 0 < megabytes ∧ levelOf environment ∈ logLevelNames) ∧
      settingsOf (workers.getD own) megabytes (levelOf environment) = config := by
  unfold loadConfig
  simp only [bind_eq_ok_iff, mapError_eq_ok_iff, ofEnvironment_eq_ok_iff]
  constructor
  · rintro ⟨_, ⟨own, megabytes, hown, hmegabytes, rfl⟩, _, hvalid, hconfig⟩
    exact ⟨own, megabytes, hown, hmegabytes, (validate_settingsOf _ _ _).mp hvalid, Except.ok.inj hconfig⟩
  · rintro ⟨own, megabytes, hown, hmegabytes, hvalid, rfl⟩
    exact ⟨_, ⟨own, megabytes, hown, hmegabytes, rfl⟩, (), (validate_settingsOf _ _ _).mpr hvalid, rfl⟩

theorem loadConfig_of_level {logLevel : Option Text} {level : Text} (hlevel : levelOf { logLevel } = level)
    (hknown : level ∈ logLevelNames) {workers : Option Int} (hworkers : 0 < workers.getD 8) :
    loadConfig { logLevel } workers = .ok (settingsOf (workers.getD 8) 5 level) :=
  (loadConfig_eq_ok_iff _ _ _).mpr ⟨8, 5, .unset, .unset, ⟨hworkers, by decide, hlevel.symm ▸ hknown⟩, by rw [hlevel]⟩

/-- Every configuration that is not loaded is refused. -/
theorem exists_refused_of_loadConfig {environment : Environment} {workers : Option Int} {error : ValidationError}
    (h : loadConfig environment workers = .error error) : ∃ refused, error = .refused refused := by
  unfold loadConfig at h
  rcases bind_eq_error_iff.mp h with hread | ⟨config, hread, hbind⟩
  · obtain ⟨refused, -, rfl⟩ := mapError_eq_error_iff.mp hread
    exact ⟨refused, rfl⟩
  · obtain ⟨own, megabytes, -, -, rfl⟩ := (ofEnvironment_eq_ok_iff environment config).mp (mapError_eq_ok_iff.mp hread)
    rcases bind_eq_error_iff.mp hbind with hvalid | ⟨-, -, hpure⟩
    · exact exists_refused_of_validate hvalid
    · simp [pure, Except.pure] at hpure

/-- No configuration is loaded if and only if it is refused. -/
theorem exists_error_iff_isRefused (environment : Environment) (workers : Option Int) :
    (∃ error, loadConfig environment workers = .error error) ↔ IsRefused environment workers := by
  constructor
  · rintro ⟨error, herror⟩
    by_contra hrefused
    have hown : ∃ own, Holds 8 environment.maxWorkers own := by
      by_contra hnone
      exact hrefused (.workersUnreadable fun n hn => hnone ⟨n, hn⟩)
    have hmegabytes : ∃ megabytes, Holds 5 environment.maxFileSizeMb megabytes := by
      by_contra hnone
      exact hrefused (.sizeUnreadable fun n hn => hnone ⟨n, hn⟩)
    obtain ⟨own, hown⟩ := hown
    obtain ⟨megabytes, hmegabytes⟩ := hmegabytes
    have hworkers : 0 < workers.getD own := by
      by_contra hle
      exact hrefused (.workersNotPositive hown (by omega))
    have hsize : 0 < megabytes := by
      by_contra hle
      exact hrefused (.sizeNotPositive hmegabytes (by omega))
    have hlevel : levelOf environment ∈ logLevelNames := by
      by_contra hunknown
      exact hrefused (.levelUnknown hunknown)
    have hloaded := (loadConfig_eq_ok_iff environment workers _).mpr
      ⟨own, megabytes, hown, hmegabytes, ⟨hworkers, hsize, hlevel⟩, rfl⟩
    simp [herror] at hloaded
  · intro hrefused
    cases hloaded : loadConfig environment workers with
    | error error => exact ⟨error, rfl⟩
    | ok config =>
      obtain ⟨own, megabytes, hown, hmegabytes, ⟨hworkers, hsize, hlevel⟩, -⟩ :=
        (loadConfig_eq_ok_iff environment workers config).mp hloaded
      exfalso
      cases hrefused with
      | workersUnreadable hnone => exact hnone own hown
      | sizeUnreadable hnone => exact hnone megabytes hmegabytes
      | workersNotPositive hown' hle =>
        obtain rfl := hown.unique hown'
        omega
      | sizeNotPositive hmegabytes' hle =>
        obtain rfl := hmegabytes.unique hmegabytes'
        omega
      | levelUnknown hunknown => exact hunknown hlevel

theorem validate_of_loadConfig {environment : Environment} {workers : Option Int} {config : Config}
    (h : loadConfig environment workers = .ok config) : config.validate = .ok () := by
  obtain ⟨own, megabytes, -, -, hvalid, rfl⟩ := (loadConfig_eq_ok_iff environment workers config).mp h
  exact (validate_settingsOf _ _ _).mpr hvalid

/-- Logging knows every level by the name of which a configuration is accepted. -/
theorem exists_logThreshold {config : Config} (hvalid : config.validate = .ok ()) (verbose : Bool) :
    ∃ severity, logThreshold config verbose = .ok severity := by
  have hall : ∀ name ∈ logLevelNames, (logThresholds.lookup name).isSome = true := by decide
  obtain ⟨severity, hseverity⟩ := Option.isSome_iff_exists.mp (hall _ (Config.validate_ok hvalid).2.2)
  cases verbose with
  | true => exact ⟨10, rfl⟩
  | false => exact ⟨severity, by simp [logThreshold, hseverity]⟩

/-- A configuration that is loaded gets its session, and one that is not gets the answer that says why. -/
theorem openSession_eq (environment : Environment) (workers : Option Int) (verbose : Bool) :
    openSession environment workers verbose =
      match loadConfig environment workers with
      | .error error => .error (refusal error)
      | .ok config => .ok { config } := by
  unfold openSession
  cases hloaded : loadConfig environment workers with
  | error error => rfl
  | ok config =>
    have hvalid := validate_of_loadConfig hloaded
    obtain ⟨severity, hseverity⟩ := exists_logThreshold hvalid verbose
    simp only [bind, Except.bind, mapError_ok, hseverity, Session.start_eq_ok hvalid]

/-- Files are read in the encoding that a configuration has by default. -/
theorem hasBuiltInEncoding_of_loadConfig {environment : Environment} {workers : Option Int} {config : Config}
    (h : loadConfig environment workers = .ok config) : config.hasBuiltInEncoding = true := by
  obtain ⟨own, megabytes, -, -, -, rfl⟩ := (loadConfig_eq_ok_iff environment workers config).mp h
  change ({} : Config).hasBuiltInEncoding = true
  decide +kernel

end Command

end SourceOrigin
