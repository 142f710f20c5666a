import SourceOrigin.Proofs.Command.Consistency
import SourceOrigin.Proofs.FileName.OwnName
import SourceOrigin.Proofs.FileTree.Loading

/-! A file with a marked name is generated, wherever it is classified: in a session, by a scan, and by a check. Its name is
that of the location that the path stands for, since all paths to a file share the unit of the file. So the name in which a
path ends counts if it is this name, and the name of a link does not. -/
namespace SourceOrigin
variable {files : FileTree} {config : Config} {text : Text} {path : Path} {unit : SourceUnit}

namespace FileTree

private theorem filePath_of_readUnit {encodingName : Text} (h : files.readUnit path encodingName = .ok unit) :
    unit.filePath = some path.toText := by
  unfold readUnit at h
  split at h
  · simp at h
  split at h
  · simp at h
  split at h
  · simp at h
  split at h
  · simp at h
  · obtain rfl := Except.ok.inj h
    rw [SourceUnit.ofText_eq]

private theorem filePath_of_unitAt (h : files.unitAt config path = .ok unit) :
    unit.filePath = some (Path.ofLocation (files.resolve path)).toText := by
  unfold unitAt at h
  split at h
  · simp at h
  · exact filePath_of_readUnit h

private theorem exists_unitAt (h : files.isReadable config path = true) : ∃ unit, files.unitAt config path = .ok unit := by
  unfold isReadable at h
  split at h
  · next unit hunit => exact ⟨unit, hunit⟩
  · simp at h

/-- The name of the file is tested before all else. -/
theorem verdictAt_of_marked (hreadable : files.isReadable config path = true)
    (hmarked : isGeneratedFileName config (some (Path.ofLocation (files.resolve path)).toText) = .ok true) :
    files.verdictAt config path = .ok true := by
  obtain ⟨unit, hunit⟩ := exists_unitAt hreadable
  have hpath : unit.tree.filePath = _ := filePath_of_unitAt hunit
  refine verdictAt_of_unit hunit ((hasVerdict_iff _ _ _).mpr ?_)
  rw [Heuristic.all, outcomeBy, Heuristic.holds, hpath, hmarked]

end FileTree

/-- The outcome is a report that lists the path among the generated files, and not among the others. -/
def ListsGenerated (path : Path) (outcome : Except SessionError ScanResult) : Prop :=
  ∃ result, outcome = .ok result ∧ path.toText ∈ result.generated ∧ path.toText ∉ result.handwritten

/-- A scan that is not cancelled lists a file by its verdict, and only so if paths are told apart by their texts, unless a
path aborts. -/
theorem ScanEnds.listsGenerated {paths : List Path} {root : Text} {token : CancellationToken} {interrupted : Bool}
    {outcome : Except SessionError ScanResult} (h : ScanEnds files config paths root token interrupted outcome)
    (hvalid : config.validate = .ok ()) (hrunning : token.cancelled = false)
    (hnormal : ∀ path ∈ paths, Path.ofText path.toText = path) (hmem : path ∈ paths)
    (hverdict : files.verdictAt config path = .ok true) :
    ListsGenerated path outcome ∨ files.AbortsScan config paths outcome := by
  rcases h.cases_of_running hrunning with ⟨-, result, rfl, hresult⟩ | haborts
  · refine .inl ⟨result, rfl, (hresult.mem_generated_iff hvalid _).mpr ⟨path, hmem, hverdict, rfl⟩, fun hlisted => ?_⟩
    obtain ⟨other, hother, hvalue, htext⟩ := (hresult.mem_handwritten_iff hvalid _).mp hlisted
    rw [← hnormal other hother, htext, hnormal path hmem, hverdict] at hvalue
    exact absurd (Except.ok.inj hvalue) Bool.true_eq_false.mp
  · exact .inr haborts

/-- A session that agrees with its files comes to the verdict on a path, unless it is cancelled. -/
theorem Session.Agrees.classifyPath_eq {units : UnitId → SyntaxTree} {session : Session} (h : session.Agrees files units)
    (hrunning : (session.classifyPath files path).session.token.cancelled = false) {verdict : Bool}
    (hverdict : files.verdictAt session.config path = .ok verdict) :
    (session.classifyPath files path).outcome = .ok verdict := by
  have hfollows := h.classifyPath_follows path
  rw [← Session.classifyPath_new] at hverdict
  cases houtcome : (session.classifyPath files path).outcome with
  | ok found => exact (hfollows.value found houtcome).symm.trans hverdict
  | error error =>
    cases error with
    | load fault => exact absurd ((hfollows.reading fault).mp houtcome) (by simp [hverdict])
    | classify fault =>
      obtain ⟨-, -, polls, -, -, hcancelled⟩ := hfollows.cancelled fault houtcome
      exact absurd (hrunning.symm.trans hcancelled) Bool.false_ne_true
    | interrupted => exact absurd houtcome hfollows.uninterrupted

/-- A session that agrees with its files lists a generated file that a walk selects, in a scan of the directory and in every
schedule of the jobs, unless a path aborts. -/
theorem Session.Agrees.listsGenerated {units : UnitId → SyntaxTree} {session : Session} {directory : Path}
    {paths : List Path} {skipped : Log} (h : session.Agrees files units) (hfiles : files.isNulFree = true)
    (hdirectory : directory.holdsNul = false)
    (hfound : files.sourceFiles session.config (Path.ofLocation (files.resolve directory)) = .ok (paths, skipped))
    (hmem : path ∈ paths) (hverdict : files.verdictAt session.config path = .ok true) :
    (∀ interrupt, (session.scan files directory interrupt).session.token.cancelled = false →
      ListsGenerated path (session.scan files directory interrupt).outcome ∨
        files.AbortsScan session.config paths (session.scan files directory interrupt).outcome) ∧
    ∀ schedule root outcome,
      let pool := (Pool.start session paths).run files schedule
      pool.session.token.cancelled = false → pool.outcome? root = some outcome →
        ListsGenerated path outcome ∨ files.AbortsScan session.config paths outcome := by
  have hnormal : ∀ path ∈ paths, Path.ofText path.toText = path :=
    fun path hmem => (FileTree.opens_of_mem_sourceFiles hfound hmem).1
  have hpaths : ∀ path ∈ paths, path.holdsNul = false := fun path hmem =>
    (FileTree.resolutionError?_eq_none_iff.mp (FileTree.resolutionError?_of_mem_sourceFiles hfiles hfound hmem)).1
  constructor
  · intro interrupt
    have hstraight := FileTree.isCircular_of_mem_sourceFiles hfound hmem
    simp only [Session.scan, FileTree.resolutionError?_eq_none_iff.mpr ⟨hdirectory, hstraight⟩, hfound]
    intro hrunning
    have hends := h.scanEnds hfiles hpaths (Path.ofLocation (files.resolve directory)).toText interrupt
    exact hends.listsGenerated h.valid hrunning hnormal hmem hverdict
  · intro schedule root outcome pool hrunning houtcome
    obtain ⟨units', hgrows, hpool⟩ := Pool.agrees_run (Pool.agrees_start h paths) schedule
    have hends := hpool.scanEnds hfiles hpaths houtcome
    rw [hgrows.config, Pool.start] at hends
    exact hends.listsGenerated h.valid hrunning hnormal hmem hverdict

/-- A text that ends in the own name of its file, which is marked, stands for a generated file in every session, whatever was
done with it before, and so does one that leads to a file with a marked name: classifying the path finds it unless the
session is cancelled, a scan that selects the path lists it among the generated files unless another path aborts, as none does
in an encoding that is built in, and a check labels it so. -/
theorem Host.marked_isGenerated (hvalid : config.validate = .ok ()) (hfiles : files.isNulFree = true)
    (hreadable : files.isReadable config (Path.ofText text) = true)
    (hmarked : isGeneratedFileName config (some text) = .ok true ∧
        (∃ directories name, files.EndsInOwnName text directories name) ∨
      isGeneratedFileName config (some (Path.ofLocation (files.resolve (Path.ofText text))).toText) = .ok true) :
    let path := Path.ofText text
    (∀ environment given token session operations, Session.start environment given token = .ok session →
      session.config = config →
      let host := after files { session } operations
      ((host.session.classifyPath files path).session.token.cancelled = false →
        (host.session.classifyPath files path).outcome = .ok true) ∧
      ∀ directory paths skipped, directory.holdsNul = false →
        let root := Path.ofLocation (files.resolve directory)
        files.sourceFiles config root = .ok (paths, skipped) → path ∈ paths →
        (config.hasBuiltInEncoding = true → files.NoneAborts config paths) ∧
        (∀ interrupt, (host.session.scan files directory interrupt).session.token.cancelled = false →
          ListsGenerated path (host.session.scan files directory interrupt).outcome ∨
            files.AbortsScan config paths (host.session.scan files directory interrupt).outcome) ∧
        ∀ schedule outcome,
          let pool := (Pool.start host.session paths).run files schedule
          pool.session.token.cancelled = false → pool.outcome? root.toText = some outcome →
            ListsGenerated path outcome ∨ files.AbortsScan config paths outcome) ∧
    ∀ world : Command.World, world.toolkit.IsFaithful → world.files = files →
      Command.loadConfig world.environment none = .ok config →
      Command.leadsTo files Command.isFile text = true → Command.ChecksTo world text [verdictLine true text] [] := by
  intro path
  have hown : isGeneratedFileName config (some (Path.ofLocation (files.resolve path)).toText) = .ok true := by
    obtain ⟨hmarked, directories, name, hends⟩ | hmarked := hmarked
    · exact (hends.isGeneratedFileName_eq config).trans hmarked
    · exact hmarked
  have hverdict := FileTree.verdictAt_of_marked hreadable hown
  constructor
  · intro environment given token session operations hstart hconfig host
    obtain ⟨units, hagrees, hsame⟩ := exists_agrees files hstart operations
    obtain rfl : host.session.config = config := hsame.trans hconfig
    refine ⟨fun hrunning => hagrees.session.classifyPath_eq hrunning hverdict, ?_⟩
    intro directory paths skipped hdirectory root hfound hmem
    obtain ⟨hscan, hpool⟩ := hagrees.session.listsGenerated hfiles hdirectory hfound hmem hverdict
    refine ⟨fun hencoding => ?_, hscan, fun schedule outcome => hpool schedule root.toText outcome⟩
    exact FileTree.noneAborts_of_resolved hencoding fun path => FileTree.resolutionError?_of_mem_sourceFiles hfiles hfound
  · rintro world htoolkit rfl hloaded hleads
    exact Command.checksTo_verdict htoolkit hfiles hloaded hleads hverdict

/-- The directory of the file is a link, but the file is none. -/
theorem Host.marked_isGenerated_linkedDirectory :
    let source : FileNode := .directory [("a.designer.cs".toList, .file [0x3b])]
    let files : FileTree :=
      { root := .directory [("src".toList, source), ("lib".toList, .link "src".toList)], workingDirectory := [] }
    let config := Command.settingsOf 8 5 "INFO".toList
    let text := ".//lib/a.designer.cs".toList
    let host := after files { session := { config } } [.load ⟨[], ["src".toList, "a.designer.cs".toList]⟩, .close]
    (host.session.classifyPath files (Path.ofText text)).outcome = .ok true ∧
      Command.ChecksTo { files, environment := {}, seconds := "0.001".toList } text [verdictLine true text] [] := by
  intro source files config text host
  have hloaded : Command.loadConfig {} none = .ok config :=
    Command.loadConfig_of_level (by decide +kernel) (by decide +kernel) (by decide)
  have hvalid := Command.validate_of_loadConfig hloaded
  have hstart := Session.start_eq_ok hvalid {} {}
  have hlocation : files.resolve (Path.ofText ".//lib/".toList) = ["src".toList] := by decide +kernel
  have hfile : files.root.at? (["src".toList] ++ ["a.designer.cs".toList]) = some (.file [0x3b]) := rfl
  have hends : files.EndsInOwnName text ".//lib/".toList "a.designer.cs".toList := by
    refine ⟨rfl, by rintro c ⟨⟩; rfl, by decide, fun target => ?_⟩
    rw [hlocation, hfile]
    simp
  have hname : isGeneratedFileName config (some text) = .ok true := eq_ok_of_toOption (by decide +kernel)
  obtain ⟨hsession, hcheck⟩ := marked_isGenerated hvalid (by decide +kernel) (by decide +kernel)
    (.inl ⟨hname, _, _, hends⟩)
  refine ⟨?_, hcheck _ Command.Toolkit.isFaithful_default rfl hloaded (by decide +kernel)⟩
  exact (hsession {} (some config) {} { config } _ hstart rfl).1 (by decide +kernel)

/-- The name of a link is not tested, though it is the name that the file is classified and listed under. Nor is what a text
ends in that is no name of an entry: a last step up, which leads back to a file from a name below it, a dot, or nothing. -/
theorem Session.classifyPath_foreignName :
    let files : FileTree :=
      { root := .directory [("code.cs".toList, .file [0x3b]), ("form.designer.cs".toList, .link "code.cs".toList)],
        workingDirectory := [] }
    let config : Config := { fileNamePatterns := ["\\.designer\\.cs$".toList, "^\\.*$".toList] }
    config.validate = .ok () ∧
      ∀ text ∈ ["form.designer.cs".toList, "code.cs/absent/..".toList, "code.cs/.".toList, "code.cs/".toList],
        let path := Path.ofText text
        let result := Session.classifyPath { config } files path
        files.isReadable config path = true ∧ isGeneratedFileName config (some text) = .ok true ∧
          result.session.token.cancelled = false ∧ result.outcome = .ok false := by
  refine ⟨eq_ok_of_toOption (by decide +kernel), ?_⟩
  simp only [List.forall_mem_cons, List.not_mem_nil, false_imp_iff, implies_true, and_true]
  refine ⟨?link, ?stepUp, ?dot, ?slash⟩
  all_goals exact ⟨by decide +kernel, eq_ok_of_toOption (by decide +kernel), by decide +kernel,
    eq_ok_of_toOption (by decide +kernel)⟩

end SourceOrigin
