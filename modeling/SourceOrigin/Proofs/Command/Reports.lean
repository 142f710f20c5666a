import SourceOrigin.Proofs.Command.Consistency
import SourceOrigin.Proofs.Report.ScanReport

/-! The report for the console and the document in JSON say the same of a scan. What they say is read from what is seen of
them: the document is read as the fields of the result, and the lines are read as rows and counts. -/
namespace SourceOrigin.Command
open ScanResult
variable (world : World)

private theorem scanResponse_error (request other : ScanRequest) (seconds : Text) (error : SessionError) :
    scanResponse request seconds (.error error) = scanResponse other seconds (.error error) ∧
      (scanResponse request seconds (.error error)).exitCode ≠ 0 := by
  cases error with
  | classify error => cases error <;> exact ⟨rfl, by simp [scanResponse, aborted]⟩
  | load error => exact ⟨rfl, by simp [scanResponse, aborted]⟩
  | interrupted => exact ⟨rfl, by simp [scanResponse]⟩

/-- What a scan comes to depends neither on the format nor on the listing: all reports are of one result, or the scan ends
without one in the same way. -/
theorem scan_eq_report (request : ScanRequest) :
    (∃ result, ∀ format listing, scan world { request with format, listing } =
      scanResponse { request with format, listing } world.seconds (.ok result)) ∨
    ∃ response : Response, response.exitCode ≠ 0 ∧ ∀ format listing, scan world { request with format, listing } = response := by
  have hopen := openSession_eq world.environment request.workers request.verbose
  simp only [scan, hopen]
  cases loadConfig world.environment request.workers with
  | error error =>
    refine .inr ⟨refusal error, ?_, fun _ _ => rfl⟩
    cases error <;> exact Nat.one_ne_zero
  | ok config =>
    dsimp only
    cases (Session.scan { config } world.files (Path.ofText request.directory) world.interrupt).outcome with
    | ok result => exact .inl ⟨result, fun _ _ => rfl⟩
    | error error =>
      exact .inr ⟨_, (scanResponse_error request request world.seconds error).2,
        fun _ _ => (scanResponse_error _ request world.seconds error).1⟩

def shownLines (result : ScanResult) (listing : Listing) : List Text :=
  (result.rows listing).map (fun row => verdictLine row.2 (world.onOutput row.1)) ++
    result.summaryLines (world.onOutput (world.seconds ++ " seconds".toList))

section
variable {world} (htoolkit : world.toolkit.IsFaithful)
include htoolkit

private theorem onOutput_summaryLines (result : ScanResult) (time : Text) :
    (result.summaryLines time).map world.onOutput = result.summaryLines (world.onOutput time) := by
  have hplain (line : Text) (h : line ∈ result.summaryLines []) : world.onOutput line = line :=
    World.onOutput_eq_self htoolkit (result.not_mem_summaryLines (.inr rfl) List.not_mem_nil line h)
  have hcounts (count : String × Nat) (h : count ∈ result.counts) :
      world.onOutput (countLine count.1 count.2) = countLine count.1 count.2 :=
    hplain _ (List.mem_append_left _ (List.mem_cons_of_mem rule (List.mem_map_of_mem h)))
  have hcompleted : '\x1b' ∉ "  Completed in ".toList := by decide
  simp only [summaryLines, List.cons_append, List.map_cons, List.map_append, List.map_map, List.map_nil,
    hplain rule List.mem_cons_self, World.onOutput_append_of_not_mem htoolkit hcompleted]
  exact congrArg (fun lines => rule :: (lines ++ ["  Completed in ".toList ++ world.onOutput time, rule]))
    (List.map_congr_left hcounts)

private theorem onOutput_consoleLines (result : ScanResult) (listing : Listing) :
    (result.consoleLines listing world.seconds).map world.onOutput = shownLines world result listing := by
  rw [consoleLines_eq, List.map_append, onOutput_summaryLines htoolkit, List.map_map, shownLines]
  congr 2
  funext row
  exact World.onOutput_verdictLine htoolkit row.2 row.1

private theorem shown_console {request : ScanRequest} (hformat : request.format = .console) (result : ScanResult) :
    world.shown (scanResponse request world.seconds (.ok result)) =
      { exitCode := 0, output := unlines (shownLines world result request.listing) } := by
  have hseen := onOutput_consoleLines htoolkit result request.listing
  have herrors : world.onErrors [] = [] := World.onErrors_unlines htoolkit []
  simp only [World.shown, scanResponse, reportLines, hformat, World.onOutput_unlines htoolkit, hseen, herrors]

end

section
variable (result : ScanResult) (listing : Listing)

private theorem readRow?_shownLines : (shownLines world result listing).filterMap readRow? =
    (result.rows listing).map fun row => (row.2, world.onOutput row.1) := by
  rw [shownLines, List.filterMap_append, readRow?_summaryLines, List.append_nil, List.filterMap_map, ← List.filterMap_eq_map]
  exact List.filterMap_congr fun row _ => readRow?_verdictLine row.2 (world.onOutput row.1)

private theorem readCount?_shownLines {name : String} (hname : name ∈ countNames) :
    (shownLines world result listing).filterMap (readCount? name) =
      result.counts.filterMap fun count => if count.1 = name then some count.2 else none := by
  have hapart : ∀ name ∈ countNames, ∀ verdict, apart name.toList (verdictLine verdict []) = true := by decide
  have hnone : (result.rows listing).filterMap (readCount? name ∘ fun row => verdictLine row.2 (world.onOutput row.1)) = [] := by
    refine List.filterMap_eq_nil_iff.mpr fun row _ => ?_
    rw [Function.comp_apply, verdictLine_eq_append]
    exact readCount?_eq_none (hapart name hname row.2) _
  rw [shownLines, List.filterMap_append, List.filterMap_map, hnone, List.nil_append, result.readCount?_summaryLines hname]

private theorem readCounts_shownLines :
    (shownLines world result listing).filterMap (readCount? "  Files scanned      ") = [result.filesScanned] ∧
    (shownLines world result listing).filterMap (readCount? "  Generated          ") = [result.generated.length] ∧
    (shownLines world result listing).filterMap (readCount? "  Hand-written       ") = [result.handwritten.length] := by
  refine ⟨?_, ?_, ?_⟩
  all_goals
    rw [readCount?_shownLines world result listing (by decide), counts]
    split <;> rfl

/-- A report has the lines that it is made of, unless there is a line feed in a path or in the time. -/
theorem splitOn_shownLines (htoolkit : world.toolkit.IsFaithful)
    (hpaths : ∀ verdict, ∀ path ∈ result.listed verdict, '\n' ∉ path) (hseconds : '\n' ∉ world.seconds) :
    Text.splitOn '\n' (unlines (shownLines world result listing)) = shownLines world result listing ++ [[]] := by
  refine splitOn_unlines fun line hmem => ?_
  rcases List.mem_append.mp hmem with hmem | hmem
  · obtain ⟨row, hrow, rfl⟩ := List.mem_map.mp hmem
    exact feed_not_mem_verdictLine htoolkit (hpaths row.2 row.1 (mem_listed_of_mem_rows hrow)) row.2
  · refine result.not_mem_summaryLines (.inl rfl) (fun hfeed => ?_) line hmem
    rcases List.mem_append.mp ((World.onOutput_sublist htoolkit _).subset hfeed) with hfeed | hfeed
    · exact hseconds hfeed
    · exact absurd hfeed (by decide)

end

/-- Both reports of a result. The document is read as all fields of the result but the list that is not asked for. Rows stand
above the summary, sorted by path, one for each text in a list of the document, with the label that is the name of the list;
where no terminal shows them, control sequences in their paths are not seen. The counts are of all files in both reports. A row
is a line unless there is a line feed in its path. -/
theorem reports_agree (htoolkit : world.toolkit.IsFaithful) (result : ScanResult) (request : ScanRequest) :
    let shown (format : Format) := world.shown (scanResponse { request with format } world.seconds (.ok result))
    let members := result.members request.listing
    ∃ document rows lines,
      shown .json = { exitCode := 0, output := document } ∧
      JsonValue.read? document = some (.object members) ∧
      shown .console = { exitCode := 0, output := unlines lines } ∧
      lines.filterMap readRow? = rows.map (fun row => (row.2, world.onOutput row.1)) ∧
      (rows : List (Text × Bool)).Pairwise (fun a b => a.1 < b.1 ∨ a.1 = b.1 ∧ a.2 ≤ b.2) ∧
      (∀ verdict, let listed := (JsonValue.object members).itemsAt (verdictLabel verdict)
        listed = (if request.listing.includes verdict then result.listed verdict else []) ∧
          ((rows.filter (·.2 = verdict)).map (·.1)).Perm listed) ∧
      members.lookup "files_scanned".toList = some (.number result.filesScanned) ∧
      lines.filterMap (readCount? "  Files scanned      ") = [result.filesScanned] ∧
      lines.filterMap (readCount? "  Generated          ") = [result.generated.length] ∧
      lines.filterMap (readCount? "  Hand-written       ") = [result.handwritten.length] ∧
      ((∀ verdict, ∀ path ∈ result.listed verdict, '\n' ∉ path) → '\n' ∉ world.seconds →
        Text.splitOn '\n' (unlines lines) = lines ++ [[]]) := by
  intro shown members
  have hdocument : JsonValue.read? ((result.toJson request.listing).render 0 ++ ['\n']) = some (.object members) := by
    rw [toJson_eq_members]
    exact JsonValue.read?_render 0 _ fun c hmem => List.mem_singleton.mp hmem ▸ rfl
  have hlisted (verdict : Bool) : (JsonValue.object members).itemsAt (verdictLabel verdict) =
      if request.listing.includes verdict then result.listed verdict else [] :=
    result.itemsAt_members request.listing verdict
  obtain ⟨hscanned, hgenerated, hhandwritten⟩ := readCounts_shownLines world result request.listing
  refine ⟨_, result.rows request.listing, _, shown_report htoolkit rfl result, hdocument, shown_console htoolkit rfl result,
    readRow?_shownLines world result request.listing, result.rows_pairwise _, fun verdict => ⟨hlisted verdict, ?_⟩,
    result.lookup_filesScanned _, hscanned, hgenerated, hhandwritten, splitOn_shownLines world result request.listing htoolkit⟩
  rw [hlisted]
  exact result.rows_perm request.listing verdict

/-- Of a generated and a hand-written file only the generated one is asked for, and both are counted. -/
theorem reports_agree_generated :
    let world : World :=
      { files := { root := .directory [], workingDirectory := [] }, environment := {}, seconds := "0.001".toList }
    let result : ScanResult := { filesScanned := 2, generated := ["a.g.cs".toList], handwritten := ["b.cs".toList] }
    let shown (format : Format) := world.shown (scanResponse { format, listing := .generated } world.seconds (.ok result))
    ∃ document lines,
      shown .json = { exitCode := 0, output := document } ∧
      (JsonValue.read? document).map (·.itemsAt (verdictLabel true)) = some ["a.g.cs".toList] ∧
      (JsonValue.read? document).map (·.itemsAt (verdictLabel false)) = some [] ∧
      shown .console = { exitCode := 0, output := unlines lines } ∧
      lines.filterMap readRow? = [(true, "a.g.cs".toList)] ∧
      lines.filterMap (readCount? "  Hand-written       ") = [1] := by
  intro world result shown
  obtain ⟨document, rows, lines, hjson, hread, hconsole, hrows, -, hlisted, -, -, -, hcount, -⟩ :=
    reports_agree world Toolkit.isFaithful_default result { listing := .generated }
  obtain ⟨hgenerated, hmarked⟩ := hlisted true
  obtain ⟨hhandwritten, hunmarked⟩ := hlisted false
  refine ⟨document, lines, hjson, ?_, ?_, hconsole, ?_, hcount⟩
  · rw [hread]
    exact congrArg some hgenerated
  · rw [hread]
    exact congrArg some hhandwritten
  · rw [hgenerated] at hmarked
    rw [hhandwritten] at hunmarked
    have hnone : rows.filter (·.2 = false) = [] := List.map_eq_nil_iff.mp (List.perm_nil.mp hunmarked)
    have hall : rows.filter (·.2 = true) = rows := by
      refine List.filter_eq_self.mpr fun row hmem => ?_
      have hnot := List.filter_eq_nil_iff.mp hnone row hmem
      simpa using hnot
    rw [hall] at hmarked
    have hpaths : rows.map (·.1) = ["a.g.cs".toList] := List.perm_singleton.mp hmarked
    obtain ⟨row, rfl⟩ := List.length_eq_one_iff.mp ((List.length_map _).symm.trans (congrArg List.length hpaths))
    have hlabel : row.2 = true := by simpa using List.filter_eq_self.mp hall row List.mem_cons_self
    have hpath : row.1 = "a.g.cs".toList := List.singleton_injective hpaths
    rw [hrows, List.map_singleton, hlabel, hpath]
    decide +kernel

/-- Where no terminal shows the row, its path is not the one in the document. -/
theorem row_ne_item_colored :
    let world : World :=
      { files := { root := .directory [("\x1b[31ma.cs".toList, .file [0x3b])], workingDirectory := [] }
        environment := {}, seconds := "0.001".toList }
    let rows := (Text.splitOn '\n' (run world ["scan".toList]).output).filterMap readRow?
    let document := JsonValue.read? (run world ["scan".toList, "-f".toList, "json".toList]).output
    rows = [(false, "/a.cs".toList)] ∧
      document.map (·.itemsAt (verdictLabel false)) = some ["/\x1b[31ma.cs".toList] ∧
      ¬ ∃ value, document = some value ∧
        ((rows.filter (·.1 = false)).map (·.2)).Perm (value.itemsAt (verdictLabel false)) := by
  intro world rows document
  have hrows : rows = [(false, "/a.cs".toList)] := by decide +kernel
  have hitems : document.map (·.itemsAt (verdictLabel false)) = some ["/\x1b[31ma.cs".toList] := by decide +kernel
  refine ⟨hrows, hitems, ?_⟩
  rintro ⟨value, hvalue, hperm⟩
  rw [hvalue] at hitems
  have hitem : value.itemsAt (verdictLabel false) = ["/\x1b[31ma.cs".toList] := Option.some.inj hitems
  rw [hrows, hitem] at hperm
  have hsame : "/a.cs".toList = "/\x1b[31ma.cs".toList := List.singleton_perm_singleton.mp hperm
  exact absurd hsame (by decide)

end SourceOrigin.Command
