import SourceOrigin.Proofs.Command.Checking
import SourceOrigin.Proofs.Command.Lines

/-! The report of a check. Every argument whose file can be read gets a line of the output, every other one a line of the
errors, in their order; an argument that leads to the same file as another one gets the same label. -/
namespace SourceOrigin

private theorem forall₂_filter_filterMap {α β : Type} {relation : α → β → Prop} {test : α → Bool} {f : α → Option β}
    {list : List α}
    (h : ∀ a ∈ list, test a = true ∧ (∃ b, f a = some b ∧ relation a b) ∨ test a = false ∧ f a = none) :
    List.Forall₂ relation (list.filter test) (list.filterMap f) := by
  induction list with
  | nil => exact .nil
  | cons a list ih =>
    have hrest := ih fun b hmem => h b (List.mem_cons_of_mem a hmem)
    rcases h a List.mem_cons_self with ⟨htest, b, hfound, hrelated⟩ | ⟨htest, hnone⟩
    · rw [List.filter_cons_of_pos htest, List.filterMap_cons_some hfound]
      exact .cons hrelated hrest
    · rw [List.filter_cons_of_neg (by simp [htest]), List.filterMap_cons_none hnone]
      exact hrest

/-- Whether a file can be read, and what its verdict is, does not depend on the path to it. -/
theorem FileTree.same_of_resolve {files : FileTree} {a b : Path} (ha : files.resolutionError? a = none)
    (hb : files.resolutionError? b = none) (h : files.resolve a = files.resolve b) (config : Config) :
    files.isReadable config a = files.isReadable config b ∧ files.isGenerated config a = files.isGenerated config b := by
  have hunit : files.unitAt config a = files.unitAt config b := by
    rw [unitAt_of_resolved ha, unitAt_of_resolved hb, h]
  simp only [isReadable, isGenerated, hunit, and_self]

namespace Command

def World.canRead (world : World) (config : Config) (argument : Text) : Bool :=
  world.files.isReadable config (Path.ofText argument)

def World.labels (world : World) (config : Config) (argument : Text) : Bool :=
  world.files.isGenerated config (Path.ofText argument)

/-- With a configuration that is accepted, a check writes one line for every argument that can be read, with its label and what
is seen of it, and one line that says why for every other one, in their order, and it fails if there is one of these. The label
and the argument are one line of the output unless there is a line feed in the argument. -/
structure ReportsEach (world : World) (config : Config) (paths : List Text) (response : Response) : Prop where
  output : response.output = unlines ((paths.filter (world.canRead config)).map fun path =>
    verdictLine (world.labels config path) (world.onOutput path))
  lines : (∀ path ∈ paths, '\n' ∉ path) → Text.splitOn '\n' response.output =
    (paths.filter (world.canRead config)).map (fun path => verdictLine (world.labels config path) (world.onOutput path)) ++ [[]]
  errors : ∃ faults, response.errors = unlines faults ∧ List.Forall₂
    (fun path line => ∃ file fault, world.files.unitAt config (Path.ofText path) = .error (.unreadable file fault) ∧
      line = "Error: ".toList ++ world.onErrors (LoadError.unreadable file fault).message.toList)
    (paths.filter (!world.canRead config ·)) faults
  failing : response.exitCode = 1 ↔ ∃ path ∈ paths, world.canRead config path = false
  passing : response.exitCode = 0 ↔ ∀ path ∈ paths, world.canRead config path = true
  caught : response.failure = none

section
variable {world : World} {config : Config} {arguments paths : List Text} {verbose : Bool}
  (htoolkit : world.toolkit.IsFaithful) (hfiles : world.files.isNulFree = true)
  (hloaded : loadConfig world.environment none = .ok config)
  (haccepted : accepted world arguments = some (.check verbose paths))
include hfiles hloaded haccepted

private theorem line_of_canRead {path : Text} (hmem : path ∈ paths) :
    world.canRead config path = true ∧
      labelLine? world.files config path = some (verdictLine (world.labels config path) path) ∧
      faultLine? world.files config path = none ∨
    world.canRead config path = false ∧ labelLine? world.files config path = none ∧
      ∃ file fault, world.files.unitAt config (Path.ofText path) = .error (.unreadable file fault) ∧
        faultLine? world.files config path = some (errorLine (LoadError.unreadable file fault).message) := by
  have hvalid := validate_of_loadConfig hloaded
  obtain ⟨hnul, hstraight⟩ := FileTree.resolutionError?_eq_none_iff.mp (resolutionError?_of_accepted hfiles haccepted path hmem)
  rcases FileTree.unitAt_cases hfiles hnul config with ⟨error, haborts, -⟩ | ⟨-, ⟨unit, hunit⟩ | ⟨file, fault, hunit⟩⟩
  · exact absurd haborts (FileTree.not_abortsAt (hasBuiltInEncoding_of_loadConfig hloaded) hstraight error)
  · obtain ⟨verdict, hverdict⟩ := exists_hasVerdict hvalid unit.tree
    have hvalue := FileTree.verdictAt_of_unit hunit hverdict
    have hlabel : world.labels config path = verdict := by
      rw [World.labels, ← (world.files.isVerdict_verdictAt hvalid _).1, hvalue, isVerdict, beq_true]
    refine .inl ⟨?_, ?_, ?_⟩
    · rw [World.canRead, FileTree.isReadable, hunit]
    · rw [labelLine?, hvalue, hlabel]
    · rw [faultLine?, hunit]
  · have hvalue := FileTree.verdictAt_of_error hunit
    refine .inr ⟨?_, ?_, file, fault, hunit, ?_⟩
    · rw [World.canRead, FileTree.isReadable, hunit]
    · rw [labelLine?, hvalue]
    · rw [faultLine?, hunit]

private theorem labelLines_eq : paths.filterMap (labelLine? world.files config) =
    (paths.filter (world.canRead config)).map fun path => verdictLine (world.labels config path) path := by
  symm
  rw [← List.forall₂_eq_eq_eq, List.forall₂_map_left_iff]
  refine forall₂_filter_filterMap fun path hmem => ?_
  rcases line_of_canRead hfiles hloaded haccepted hmem with ⟨hread, hlabel, -⟩ | ⟨hread, hlabel, -⟩
  · exact .inl ⟨hread, _, hlabel, rfl⟩
  · exact .inr ⟨hread, hlabel⟩

include htoolkit in
private theorem reportsEach : ReportsEach world config paths (run world arguments) := by
  have hrun : run world arguments = world.shown
      { exitCode := if (paths.filterMap (faultLine? world.files config)).isEmpty then 0 else 1
        output := unlines (paths.filterMap (labelLine? world.files config))
        errors := unlines (paths.filterMap (faultLine? world.files config)) } := by
    rw [(run_of_accepted haccepted).1, perform, check_eq hfiles hloaded (resolutionError?_of_accepted hfiles haccepted)]
  have houtput : (run world arguments).output = unlines ((paths.filter (world.canRead config)).map fun path =>
      verdictLine (world.labels config path) (world.onOutput path)) := by
    rw [hrun]
    simp only [World.shown, World.onOutput_unlines htoolkit, labelLines_eq hfiles hloaded haccepted, List.map_map]
    exact congrArg unlines (List.map_congr_left fun path _ => World.onOutput_verdictLine htoolkit _ path)
  have hcode : (run world arguments).exitCode = if (paths.filterMap (faultLine? world.files config)).isEmpty then 0 else 1 := by
    rw [hrun]
    rfl
  have hpasses : (paths.filterMap (faultLine? world.files config)).isEmpty = true ↔
      ∀ path ∈ paths, world.canRead config path = true :=
    isEmpty_faultLines world.files config paths
  refine ⟨houtput, fun hpaths => ?_, ⟨(paths.filterMap (faultLine? world.files config)).map world.onErrors, ?_, ?_⟩, ?_, ?_, ?_⟩
  · rw [houtput]
    refine splitOn_unlines fun line hmem => ?_
    obtain ⟨path, hpath, rfl⟩ := List.mem_map.mp hmem
    exact feed_not_mem_verdictLine htoolkit (hpaths path (List.mem_filter.mp hpath).1) _
  · rw [hrun]
    exact World.onErrors_unlines htoolkit _
  · rw [List.forall₂_map_right_iff]
    refine forall₂_filter_filterMap fun path hmem => ?_
    rcases line_of_canRead hfiles hloaded haccepted hmem with ⟨hread, -, hfault⟩ | ⟨hread, -, file, fault, hunit, hfault⟩
    · exact .inr ⟨by rw [hread, Bool.not_true], hfault⟩
    · exact .inl ⟨by rw [hread, Bool.not_false], _, hfault, file, fault, hunit, World.onErrors_errorLine htoolkit _⟩
  · have hsome : (∃ path ∈ paths, world.canRead config path = false) ↔ ¬ ∀ path ∈ paths, world.canRead config path = true := by
      simp
    rw [hcode, hsome, ← hpasses]
    split <;> simp [*]
  · rw [hcode, ← hpasses]
    split <;> simp [*]
  · rw [hrun]
    rfl

end

/-- Existing files can be checked if there is at least one, and a check reports each of them. Arguments that lead to one file
have one label, and the lines of those that can be read do not depend on the others. -/
theorem check_reports {world : World} (htoolkit : world.toolkit.IsFaithful) (hfiles : world.files.isNulFree = true)
    {config : Config} (hloaded : loadConfig world.environment none = .ok config) {paths : List Text}
    (hpaths : ∀ path ∈ paths, leadsTo world.files isFile path = true) :
    (paths = [] → run world ("check".toList :: "--".toList :: paths) = usageError) ∧
    (paths ≠ [] → accepted world ("check".toList :: "--".toList :: paths) = some (.check false paths)) ∧
    (∀ a ∈ paths, ∀ b ∈ paths, world.files.resolve (Path.ofText a) = world.files.resolve (Path.ofText b) →
      world.canRead config a = world.canRead config b ∧ world.labels config a = world.labels config b) ∧
    ∀ arguments verbose, accepted world arguments = some (.check verbose paths) →
      ReportsEach world config paths (run world arguments) ∧
      ∀ others verbose' left, accepted world others = some (.check verbose' left) →
        left.filter (world.canRead config) = paths.filter (world.canRead config) →
        (run world others).output = (run world arguments).output := by
  refine ⟨?_, fun hne => accepted_check htoolkit hne hpaths, fun a ha b hb hsame => ?_, fun arguments verbose haccepted =>
    ⟨reportsEach htoolkit hfiles hloaded haccepted, fun others verbose' left hothers hleft => ?_⟩⟩
  · rintro rfl
    rw [run, accepted, htoolkit.read_nothing, Option.filter_none]
  · have hresolved := fun path hmem => resolutionError?_of_leadsTo hfiles (hpaths path hmem)
    exact FileTree.same_of_resolve (hresolved a ha) (hresolved b hb) hsame config
  · rw [(reportsEach htoolkit hfiles hloaded haccepted).output, (reportsEach htoolkit hfiles hloaded hothers).output, hleft]

/-- A generated file, one that is no UTF-8, and a link to the first are checked, and the first once more. -/
theorem check_reports_link :
    let world : World :=
      { files :=
          { root := .directory [("a.g.cs".toList, .file []), ("b.cs".toList, .file [0xff]), ("c.cs".toList, .link "a.g.cs".toList)]
            workingDirectory := [] }
        environment := {}, seconds := "0.001".toList }
    let shown := run world ["check".toList, "a.g.cs".toList, "b.cs".toList, "c.cs".toList, "a.g.cs".toList]
    shown.output = unlines [verdictLine true "a.g.cs".toList, verdictLine true "c.cs".toList, verdictLine true "a.g.cs".toList] ∧
      shown.exitCode = 1 ∧ shown.failure = none := by
  intro world shown
  let config := settingsOf 8 5 "INFO".toList
  let paths := ["a.g.cs".toList, "b.cs".toList, "c.cs".toList, "a.g.cs".toList]
  have hloaded : loadConfig world.environment none = .ok config :=
    loadConfig_of_level (by decide +kernel) (by decide +kernel) (by decide)
  have haccepted : accepted world ("check".toList :: paths) = some (.check false paths) := by decide +kernel
  have hpaths : ∀ path ∈ paths, leadsTo world.files isFile path = true := by decide +kernel
  obtain ⟨-, -, -, hreports⟩ := check_reports Toolkit.isFaithful_default (by decide +kernel) hloaded hpaths
  obtain ⟨hreports, -⟩ := hreports _ _ haccepted
  have hread : paths.filter (world.canRead config) = ["a.g.cs".toList, "c.cs".toList, "a.g.cs".toList] := by decide +kernel
  have hlabels : ["a.g.cs".toList, "c.cs".toList, "a.g.cs".toList].map (fun path =>
      verdictLine (world.labels config path) (world.onOutput path)) =
      [verdictLine true "a.g.cs".toList, verdictLine true "c.cs".toList, verdictLine true "a.g.cs".toList] := by
    decide +kernel
  refine ⟨?_, hreports.failing.mpr ⟨"b.cs".toList, by decide, by decide +kernel⟩, hreports.caught⟩
  rw [← hlabels, ← hread]
  exact hreports.output

/-- Where no terminal shows it, an argument is not written as it is given. -/
theorem check_colored :
    let world : World :=
      { files := { root := .directory [("\x1b[31ma.cs".toList, .file [0x3b])], workingDirectory := [] }
        environment := {}, seconds := "0.001".toList }
    let arguments := ["check".toList, "\x1b[31ma.cs".toList]
    (loadConfig world.environment none).toOption.isSome = true ∧
      accepted world arguments = some (.check false ["\x1b[31ma.cs".toList]) ∧
      (run world arguments).output = unlines [verdictLine false "a.cs".toList] ∧
      (run world arguments).output ≠ unlines [verdictLine false "\x1b[31ma.cs".toList] := by
  decide +kernel

end Command

end SourceOrigin
