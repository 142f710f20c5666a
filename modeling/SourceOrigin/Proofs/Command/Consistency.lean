import SourceOrigin.Proofs.Command.Checking
import SourceOrigin.Proofs.Command.Lines
import SourceOrigin.Proofs.Command.Scanning
import SourceOrigin.Proofs.Report.Json

/-! The two commands agree. What a check says of a file stands for itself, whatever files are checked before it and after it
(`ChecksTo`), and it is what a scan has found of the file: a file in a report gets the label of the list that it is in, and
one that the walk selects and the report does not list is an error. -/
namespace SourceOrigin

section
variable {files : FileTree} {config : Config} {paths : List Path} {root : Text} {result : ScanResult}

theorem ScanResult.IsPartition.mem_generated_iff (h : result.IsPartition files config paths root)
    (hvalid : config.validate = .ok ()) (text : Text) :
    text ∈ result.generated ↔ ∃ path ∈ paths, files.verdictAt config path = .ok true ∧ path.toText = text := by
  rw [h.generated.mem_iff, List.mem_map]
  refine exists_congr fun path => ?_
  rw [List.mem_filter, ← (files.isVerdict_verdictAt hvalid path).1, isVerdict_iff, and_assoc]

theorem ScanResult.IsPartition.mem_handwritten_iff (h : result.IsPartition files config paths root)
    (hvalid : config.validate = .ok ()) (text : Text) :
    text ∈ result.handwritten ↔ ∃ path ∈ paths, files.verdictAt config path = .ok false ∧ path.toText = text := by
  rw [h.handwritten.mem_iff, List.mem_map]
  refine exists_congr fun path => ?_
  rw [List.mem_filter, ← (files.isVerdict_verdictAt hvalid path).2.1, isVerdict_iff, and_assoc]

end

namespace Command

private theorem World.onOutput_of_written {world : World} (htoolkit : world.toolkit.IsFaithful) {text : Text}
    (h : JsonValue.Written text) : world.onOutput text = text :=
  World.onOutput_eq_self htoolkit fun hmem => absurd (h '\x1b' hmem) (by decide)

/-! ### Checking one file among others -/

/-- A check of the file writes these lines for it, and these for the errors, alone and in any list of files: what is
written for the files before it and after it is what a check of these would write. With a line for the errors it fails, and
otherwise if the check of the others does. -/
structure ChecksTo (world : World) (path : Text) (lines faults : List Text) : Prop where
  accepts : accepted world ["check".toList, "--".toList, path] = some (.check false [path])
  alone : ∀ arguments verbose, accepted world arguments = some (.check verbose [path]) →
    run world arguments = world.shown
      { exitCode := if faults = [] then 0 else 1, output := unlines lines, errors := unlines faults }
  among : ∀ arguments verbose before after,
    accepted world arguments = some (.check verbose (before ++ path :: after)) →
    let first := world.shown (check world verbose before)
    let last := world.shown (check world verbose after)
    (run world arguments).output = first.output ++ world.onOutput (unlines lines) ++ last.output ∧
      (run world arguments).errors = first.errors ++ world.onErrors (unlines faults) ++ last.errors ∧
      (run world arguments).exitCode = if faults = [] then max first.exitCode last.exitCode else 1

section
variable {world : World} {config : Config} {path : Text} (htoolkit : world.toolkit.IsFaithful)
  (hfiles : world.files.isNulFree = true) (hloaded : loadConfig world.environment none = .ok config)
include htoolkit hfiles hloaded

/-- A file is checked to the line that it has. -/
theorem checksTo_lines (hpath : leadsTo world.files isFile path = true) :
    ChecksTo world path (labelLine? world.files config path).toList (faultLine? world.files config path).toList := by
  refine ⟨accepted_check htoolkit (List.cons_ne_nil path []) fun other hmem => List.mem_singleton.mp hmem ▸ hpath, ?_, ?_⟩
  · intro arguments verbose haccepted
    rw [(run_of_accepted haccepted).1, perform, check_eq hfiles hloaded (resolutionError?_of_accepted hfiles haccepted)]
    cases hlabel : labelLine? world.files config path <;> cases hfault : faultLine? world.files config path <;>
      simp [hlabel, hfault]
  · intro arguments verbose before after haccepted
    have hwhole := resolutionError?_of_accepted hfiles haccepted
    have hbefore : ∀ other ∈ before, world.files.resolutionError? (Path.ofText other) = none :=
      fun other hmem => hwhole other (List.mem_append_left _ hmem)
    have hafter : ∀ other ∈ after, world.files.resolutionError? (Path.ofText other) = none :=
      fun other hmem => hwhole other (List.mem_append_right _ (List.mem_cons_of_mem path hmem))
    -- No file has a part in the lines of another one, so the lines of the whole list fall apart at the file.
    have hsplit (line? : Text → Option Text) : (before ++ path :: after).filterMap line? =
        before.filterMap line? ++ (line? path).toList ++ after.filterMap line? := by
      rw [List.filterMap_append, List.filterMap_cons, List.append_assoc]
      cases line? path <;> rfl
    have hcode (first middle last : List Text) : (if (first ++ middle ++ last).isEmpty then 0 else 1) =
        if middle = [] then max (if first.isEmpty then 0 else 1) (if last.isEmpty then 0 else 1) else 1 := by
      cases first <;> cases middle <;> cases last <;> rfl
    intro first last
    simp only [(run_of_accepted haccepted).1, first, last, perform, World.shown, check_eq hfiles hloaded hwhole,
      check_eq hfiles hloaded hbefore, check_eq hfiles hloaded hafter, hsplit, World.onOutput_append htoolkit,
      World.onErrors_append htoolkit, hcode, and_self]

/-- A file with a verdict gets its label. -/
theorem checksTo_verdict (hpath : leadsTo world.files isFile path = true) {verdict : Bool}
    (hverdict : world.files.verdictAt config (Path.ofText path) = .ok verdict) :
    ChecksTo world path [verdictLine verdict path] [] := by
  have hresolved := resolutionError?_of_leadsTo hfiles hpath
  have hlines := checksTo_lines htoolkit hfiles hloaded hpath
  rcases line_cases (validate_of_loadConfig hloaded) (hasBuiltInEncoding_of_loadConfig hloaded) hfiles hresolved with
    ⟨found, hvalue, hlabel, hfault⟩ | ⟨file, fault, hvalue, -⟩
  · obtain rfl := Except.ok.inj (hverdict.symm.trans hvalue)
    rwa [hlabel, hfault] at hlines
  · simp [hverdict] at hvalue

private theorem checksTo_fault (hpath : leadsTo world.files isFile path = true)
    (hnone : ∀ verdict, world.files.verdictAt config (Path.ofText path) ≠ .ok verdict) :
    ∃ file fault, ChecksTo world path [] [errorLine (LoadError.unreadable file fault).message] := by
  have hresolved := resolutionError?_of_leadsTo hfiles hpath
  have hlines := checksTo_lines htoolkit hfiles hloaded hpath
  rcases line_cases (validate_of_loadConfig hloaded) (hasBuiltInEncoding_of_loadConfig hloaded) hfiles hresolved with
    ⟨found, hvalue, -⟩ | ⟨file, fault, -, hlabel, hfault⟩
  · exact absurd hvalue (hnone found)
  · rw [hlabel, hfault] at hlines
    exact ⟨file, fault, hlines⟩

end

/-! ### Scanning and checking -/

/-- A report on paths says of each of them what a check of it says. -/
structure AgreesWithCheck (world : World) (paths : List Path) (result : ScanResult) : Prop where
  generated : ∀ path ∈ result.generated, ChecksTo world path [verdictLine true path] []
  handwritten : ∀ path ∈ result.handwritten, ChecksTo world path [verdictLine false path] []
  unlisted : ∀ path ∈ paths, path.toText ∉ result.generated → path.toText ∉ result.handwritten →
    ∃ file fault, ChecksTo world path.toText [] [errorLine (LoadError.unreadable file fault).message]

/-- The paths that a walk selects can be checked as they are listed. -/
theorem agreesWithCheck {world : World} (htoolkit : world.toolkit.IsFaithful) (hfiles : world.files.isNulFree = true)
    {config : Config} (hloaded : loadConfig world.environment none = .ok config) {paths : List Path}
    (hpaths : ∀ path ∈ paths, Path.ofText path.toText = path ∧ leadsTo world.files isFile path.toText = true) {root : Text}
    {result : ScanResult} (h : result.IsPartition world.files config paths root) : AgreesWithCheck world paths result := by
  have hvalid := validate_of_loadConfig hloaded
  refine ⟨fun text hlisted => ?_, fun text hlisted => ?_, fun path hmem hgenerated hhandwritten => ?_⟩
  · obtain ⟨path, hmem, hverdict, rfl⟩ := (h.mem_generated_iff hvalid text).mp hlisted
    obtain ⟨hsame, hleads⟩ := hpaths path hmem
    exact checksTo_verdict htoolkit hfiles hloaded hleads (hsame.symm ▸ hverdict)
  · obtain ⟨path, hmem, hverdict, rfl⟩ := (h.mem_handwritten_iff hvalid text).mp hlisted
    obtain ⟨hsame, hleads⟩ := hpaths path hmem
    exact checksTo_verdict htoolkit hfiles hloaded hleads (hsame.symm ▸ hverdict)
  · obtain ⟨hsame, hleads⟩ := hpaths path hmem
    refine checksTo_fault htoolkit hfiles hloaded hleads fun verdict hverdict => ?_
    rw [hsame] at hverdict
    cases verdict with
    | true => exact hgenerated ((h.mem_generated_iff hvalid _).mpr ⟨path, hmem, hverdict, rfl⟩)
    | false => exact hhandwritten ((h.mem_handwritten_iff hvalid _).mpr ⟨path, hmem, hverdict, rfl⟩)

/-- A report in JSON is shown as it is. -/
theorem shown_report {world : World} (htoolkit : world.toolkit.IsFaithful) {request : ScanRequest}
    (hformat : request.format = .json) (result : ScanResult) :
    world.shown (scanResponse request world.seconds (.ok result)) =
      { exitCode := 0, output := (result.toJson request.listing).render 0 ++ ['\n'] } := by
  have hdocument : JsonValue.Written ((result.toJson request.listing).render 0 ++ ['\n']) :=
    (JsonValue.written_render 0 _).append (.cons (by decide) .nil)
  have hlines : unlines (reportLines request world.seconds result) =
      (result.toJson request.listing).render 0 ++ ['\n'] := by
    rw [reportLines, hformat, unlines, List.flatMap_singleton]
  have herrors : world.onErrors [] = [] := World.onErrors_unlines htoolkit []
  simp only [World.shown, scanResponse, hlines, World.onOutput_of_written htoolkit hdocument, herrors]

private theorem loadConfig_workers {environment : Environment} {config : Config}
    (h : loadConfig environment none = .ok config) (workers : Option Int) :
    loadConfig environment workers = .ok { config with maxWorkers := workers.getD config.maxWorkers } ∨
      (∃ asked, workers = some asked ∧ asked ≤ 0) ∧ ∃ error, loadConfig environment workers = .error error := by
  obtain ⟨own, megabytes, hown, hmegabytes, ⟨hpositive, hsize, hlevel⟩, rfl⟩ := (loadConfig_eq_ok_iff _ _ _).mp h
  by_cases hworkers : 0 < workers.getD own
  · exact .inl ((loadConfig_eq_ok_iff _ _ _).mpr ⟨own, megabytes, hown, hmegabytes, ⟨hworkers, hsize, hlevel⟩, rfl⟩)
  · refine .inr ⟨?_, (exists_error_iff_isRefused _ _).mpr (.workersNotPositive hown (not_lt.mp hworkers))⟩
    cases workers with
    | none => exact absurd hpositive hworkers
    | some asked => exact ⟨asked, rfl, not_lt.mp hworkers⟩

/-- Every path that an uninterrupted scan reports in JSON gets the label of its list when it is checked, in whatever list of
files, and every file that is selected and not reported is an error. The number of workers for the scan is any that is
accepted, and the report is the one to which a pool of them comes under any schedule. -/
theorem scan_agreesWithCheck {world : World} (htoolkit : world.toolkit.IsFaithful) (hfiles : world.files.isNulFree = true)
    (hinterrupt : world.interrupt = false) {config : Config}
    (hloaded : loadConfig world.environment none = .ok config) {arguments : List Text}
    {request : ScanRequest} (haccepted : accepted world arguments = some (.scan request))
    (hformat : request.format = .json) :
    let root := Path.ofLocation (world.files.resolve (Path.ofText request.directory))
    (∃ asked message, request.workers = some asked ∧ asked ≤ 0 ∧
      run world arguments = world.shown { exitCode := 1, errors := unlines [errorLine message] }) ∨
    ∃ own paths skipped result, loadConfig world.environment request.workers = .ok own ∧
      world.files.sourceFiles own root = .ok (paths, skipped) ∧
      result.IsPartition world.files config paths root.toText ∧
      run world arguments = { exitCode := 0, output := (result.toJson request.listing).render 0 ++ ['\n'] } ∧
      (∀ other : World, other.toolkit.IsFaithful → other.files = world.files → other.environment = world.environment →
        AgreesWithCheck other paths result) ∧
      ∀ schedule, IsUncancelled schedule →
        let pool := (Pool.start { config := own } paths).run world.files schedule
        pool.interrupted = false →
          (∀ outcome, pool.outcome? root.toText = some outcome → outcome = .ok result) ∧
          (pool.IsSettled world.files → pool.outcome? root.toText = some (.ok result)) := by
  intro root
  obtain ⟨hrun, happlicable⟩ := run_of_accepted haccepted
  have hopen := openSession_eq world.environment request.workers request.verbose
  rcases loadConfig_workers hloaded request.workers with hown | ⟨⟨asked, hasked, hle⟩, error, herror⟩
  · right
    have hvalid := validate_of_loadConfig hown
    have hencoding := hasBuiltInEncoding_of_loadConfig hown
    obtain ⟨paths, skipped, hfound, hpaths, hscan⟩ := scan_eq hfiles hown (resolutionError?_of_leadsTo hfiles happlicable)
    -- A check reads the text of a path once more, which gives the path that the walk has selected.
    have hselected : ∀ path ∈ paths, Path.ofText path.toText = path ∧ leadsTo world.files isFile path.toText = true := by
      intro path hmem
      obtain ⟨hsame, content, hopened⟩ := FileTree.opens_of_mem_sourceFiles hfound hmem
      refine ⟨hsame, ?_⟩
      rw [leadsTo, hopened]
      rfl
    obtain ⟨hinterrupted, -⟩ | ⟨-, result, hresult, houtcome⟩ :=
      Session.run_new hvalid hencoding hfiles hpaths root.toText world.interrupt
    · simp [hinterrupt] at hinterrupted
    refine ⟨_, paths, skipped, result, hown, hfound, hresult.withWorkers, ?_, fun other hother hsame henvironment => ?_, ?_⟩
    · rw [hrun, perform, hscan, houtcome]
      exact shown_report htoolkit hformat result
    · rw [← hsame] at hfiles hselected hresult
      rw [← henvironment] at hloaded
      exact agreesWithCheck hother hfiles hloaded hselected hresult.withWorkers
    · intro schedule hschedule pool hrunning
      exact Pool.outcome_eq_report hvalid hencoding hfiles hpaths hresult hschedule hrunning
  · left
    obtain ⟨error, rfl⟩ := exists_refused_of_loadConfig herror
    simp only [herror] at hopen
    refine ⟨asked, error.message, hasked, hle, ?_⟩
    rw [hrun, perform, scan, hopen]
    rfl

/-- Two workers scan a file with the name of a generator's output and one that is no UTF-8: the one gets the label that it is
listed under, and the other is an error. -/
theorem scan_agreesWithCheck_two :
    let world : World :=
      { files := { root := .directory [("a.g.cs".toList, .file []), ("b.cs".toList, .file [0xff])], workingDirectory := [] }
        environment := {}, seconds := "0.001".toList }
    ∃ result : ScanResult, result.generated = ["/a.g.cs".toList] ∧ result.handwritten = [] ∧
      run world ["scan".toList, "-f".toList, "json".toList, "-w".toList, "2".toList] =
        { exitCode := 0, output := (result.toJson .all).render 0 ++ ['\n'] } ∧
      ChecksTo world "/a.g.cs".toList [verdictLine true "/a.g.cs".toList] [] ∧
      ∃ file fault, ChecksTo world "/b.cs".toList [] [errorLine (LoadError.unreadable file fault).message] := by
  intro world
  let request : ScanRequest := { format := .json, workers := some 2 }
  let config := settingsOf 8 5 "INFO".toList
  let listed : List Path := [⟨['/'], ["a.g.cs".toList]⟩, ⟨['/'], ["b.cs".toList]⟩]
  have hfiles : world.files.isNulFree = true := by decide +kernel
  have hloaded : loadConfig world.environment none = .ok config :=
    loadConfig_of_level (by decide +kernel) (by decide +kernel) (by decide)
  have hown : loadConfig world.environment (some 2) = .ok (settingsOf 2 5 "INFO".toList) :=
    loadConfig_of_level (by decide +kernel) (by decide +kernel) (by decide)
  have haccepted : accepted world ["scan".toList, "-f".toList, "json".toList, "-w".toList, "2".toList] =
      some (.scan request) := by
    decide +kernel
  have hwalk : ((world.files.sourceFiles (settingsOf 2 5 "INFO".toList)
      (Path.ofLocation (world.files.resolve (Path.ofText request.directory)))).toOption.map Prod.fst) = some listed := by
    decide +kernel
  obtain ⟨asked, -, hasked, hle, -⟩ | ⟨own, paths, skipped, result, hown', hfound, hresult, hrun, hagrees, -⟩ :=
    scan_agreesWithCheck Toolkit.isFaithful_default hfiles rfl hloaded haccepted rfl
  · obtain rfl := Option.some.inj hasked
    exact absurd hle (by decide)
  obtain rfl := Except.ok.inj (hown.symm.trans hown')
  rw [hfound] at hwalk
  obtain rfl : paths = listed := Option.some.inj hwalk
  have hgenerated : (listed.filter (world.files.isGenerated config)).map (·.toText) = ["/a.g.cs".toList] := by
    decide +kernel
  have hhandwritten : (listed.filter fun path => world.files.isReadable config path &&
      !world.files.isGenerated config path).map (·.toText) = [] := by
    decide +kernel
  have hfirst : result.generated = ["/a.g.cs".toList] := List.perm_singleton.mp (hgenerated ▸ hresult.generated)
  have hsecond : result.handwritten = [] := List.perm_nil.mp (hhandwritten ▸ hresult.handwritten)
  obtain ⟨hlabelled, -, hfailing⟩ := hagrees world Toolkit.isFaithful_default rfl rfl
  refine ⟨result, hfirst, hsecond, hrun, hlabelled _ ?_, ?_⟩
  · rw [hfirst]
    exact List.mem_singleton_self _
  · have hunlisted := hfailing ⟨['/'], ["b.cs".toList]⟩ (by decide +kernel)
    rw [hfirst, hsecond] at hunlisted
    exact hunlisted (by decide +kernel) List.not_mem_nil

end Command

end SourceOrigin
