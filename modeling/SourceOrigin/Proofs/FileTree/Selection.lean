import Mathlib.Algebra.Group.Int.Defs
import SourceOrigin.Proofs.FileTree.Following

/-! Which files are selected below a directory: exactly those that the walk comes to, whose names have a target extension
and whose sizes are within the limit, each once and in order. A larger file leaves one record. A file whose path the system
refuses is passed over. -/
namespace SourceOrigin.FileTree
variable {files : FileTree} {config : Config} {root : Path} {base : Location} {directories : List Text} {name : Text}
  {size : Nat} {entries : List (Text × FileNode)} {location : Location}

/-- Below a directory there is a file of this size for a scan to consider. Names of directories lead to it, none of them
excluded or a link, its own name has a target extension, and it may be a link that leads to the file. -/
structure IsSource (files : FileTree) (config : Config) (base : Location) (directories : List Text) (name : Text)
    (size : Nat) : Prop where
  listed : ∃ node, files.root.at? base = some node ∧ node.Lists config.excludedDirectories directories name
  extension : ∃ ext, Path.IsExtension name ext ∧ Text.lower ext ∈ config.targetExtensions
  file : ∃ content, files.open? (base ++ directories) name = .ok (.file content) ∧ content.length = size

/-- The paths and records that a selection below the directory at `base`, given as `root`, is to end in. Files whose paths
are refused are passed over. -/
structure IsSelection (files : FileTree) (config : Config) (root : Path) (base : Location) (paths : List Path) (log : Log) :
    Prop where
  ordered : paths.Pairwise fun a b => a.components < b.components
  selected : ∀ path, path ∈ paths ↔ ∃ directories name size, files.IsSource config base directories name size ∧
    ¬ files.Refuses (root.shown (directories ++ [name])) ∧ (size : Int) ≤ config.maxFileSizeMb * 2 ^ 20 ∧
    path = root.below (directories ++ [name])
  logged : ∃ large : List (Location × Nat), large.Nodup ∧
    (∀ location size, (location, size) ∈ large ↔ ∃ directories name, location = directories ++ [name] ∧
      files.IsSource config base directories name size ∧ ¬ files.Refuses (root.shown location) ∧
      config.maxFileSizeMb * 2 ^ 20 < (size : Int)) ∧
    log = large.map fun source => tooLarge (root.shown source.1) source.2

private theorem maxFileBytes_eq (config : Config) : config.maxFileBytes = config.maxFileSizeMb * 2 ^ 20 := by
  rw [Config.maxFileBytes, Int.mul_assoc]
  rfl

private theorem hasTargetExtension_iff : hasTargetExtension config name = true ↔
    ∃ ext, Path.IsExtension name ext ∧ Text.lower ext ∈ config.targetExtensions := by
  simp [hasTargetExtension, Path.isExtension_iff]

private theorem isEntryName_of_lists {node : FileNode} (hfiles : files.root.isProper = true)
    (hnode : files.root.at? base = some node) (hlists : node.Lists config.excludedDirectories directories name) :
    ∀ other ∈ directories ++ [name], isEntryName other = true := by
  obtain ⟨-, entry, hentry, -⟩ := hlists
  exact (FileNode.isProper_at? (FileNode.isProper_at? hfiles hnode).1 hentry).2

private theorem exists_directory_of_lists {node : FileNode} (hnode : files.root.at? base = some node)
    (hlists : node.Lists config.excludedDirectories directories name) :
    ∃ entries, files.root.at? (base ++ directories) = some (.directory entries) := by
  obtain ⟨-, entry, hentry, -⟩ := hlists
  obtain ⟨entries, hentries⟩ := FileNode.exists_directory_of_at? hentry
  exact ⟨entries, by rw [FileNode.at?_append, hnode, Option.bind_some, hentries]⟩

private theorem sourceSize?_eq_some_iff {text : Text} : files.sourceSize? config text (directories ++ [name]) = some size ↔
    hasTargetExtension config name = true ∧ ∃ content, files.open? files.workingDirectory
      ((directories ++ [name]).foldl Path.joinText text) = .ok (.file content) ∧ content.length = size := by
  rw [sourceSize?, List.getLastD_concat]
  split
  · next hextension => simp only [hextension, fileSize?_eq_some_iff, true_and]
  · next hextension => simp [hextension]

/-- The files that are considered are the sources below the directory, but for those whose paths are refused. -/
theorem mem_sizedSources_walk (hfiles : files.root.isProper = true)
    (hbase : files.locate files.workingDirectory root.toText = .ok base)
    (hdirectory : files.root.at? base = some (.directory entries)) :
    (location, size) ∈ files.sizedSources config root.toText (walkEntries config.excludedDirectories entries) ↔
      ∃ directories name, location = directories ++ [name] ∧ files.IsSource config base directories name size ∧
        ¬ files.Refuses (root.shown location) := by
  have hproper : isProperIn entries = true := (FileNode.isProper_at? hfiles hdirectory).1
  -- An accepted path leads to the file that the name of the entry leads to.
  have hopens : ∀ {directories name}, (FileNode.directory entries).Lists config.excludedDirectories directories name →
      ¬ files.Refuses (root.shown (directories ++ [name])) →
      files.open? files.workingDirectory (root.shown (directories ++ [name])) = files.open? (base ++ directories) name := by
    intro directories name hlists haccepted
    obtain ⟨others, hlast⟩ := exists_directory_of_lists hdirectory hlists
    exact (open?_shown hbase hlast (isEntryName_of_lists hfiles hdirectory hlists)).resolve_left haccepted
  rw [mem_sizedSources]
  constructor
  · rintro ⟨hwalk, hsize⟩
    obtain ⟨directories, name, rfl⟩ := exists_append_of_mem_walkEntries hwalk
    have hlists := (mem_walkEntries_iff hproper).mp hwalk
    obtain ⟨hextension, content, hopened, hlength⟩ := sourceSize?_eq_some_iff.mp hsize
    have haccepted := not_refuses_of_open? hopened
    refine ⟨directories, name, rfl, ⟨⟨_, hdirectory, hlists⟩, hasTargetExtension_iff.mp hextension, content, ?_, hlength⟩,
      haccepted⟩
    rw [← hopens hlists haccepted]
    exact hopened
  · rintro ⟨directories, name, rfl, ⟨⟨node, hnode, hlists⟩, hextension, content, hopened, hlength⟩, haccepted⟩
    obtain rfl : node = .directory entries := Option.some.inj (hnode.symm.trans hdirectory)
    rw [← hopens hlists haccepted] at hopened
    exact ⟨(mem_walkEntries_iff hproper).mpr hlists,
      sourceSize?_eq_some_iff.mpr ⟨hasTargetExtension_iff.mpr hextension, content, hopened, hlength⟩⟩

private theorem nodup_sizedSources {text : Text} {locations : List Location} (h : locations.Nodup) :
    (files.sizedSources config text locations).Nodup := by
  refine h.filterMap fun location other source hsource hother => ?_
  obtain ⟨size, -, rfl⟩ := Option.map_eq_some_iff.mp hsource
  obtain ⟨_, -, heq⟩ := Option.map_eq_some_iff.mp hother
  exact (congrArg Prod.fst heq).symm

private theorem sourceFiles_eq (hnul : root.holdsNul = false)
    (hopened : files.open? files.workingDirectory root.toText = .ok (.directory entries)) :
    let sized := files.sizedSources config root.toText (walkEntries config.excludedDirectories entries)
    files.sourceFiles config root = .ok
      (sortBy Path.le ((sized.filter fun source => (source.2 : Int) ≤ config.maxFileBytes).map
          fun source => Path.ofText (root.shown source.1)),
        (sized.filter fun source => config.maxFileBytes < (source.2 : Int)).map
          fun source => tooLarge (root.shown source.1) source.2) := by
  simp only [sourceFiles, hnul, hopened, selectSources_eq, Bool.false_eq_true, if_false]
  rfl

private theorem ofText_of_mem_sizedSources (hfiles : files.root.isProper = true) (hroot : root.IsNormal)
    (hbase : files.locate files.workingDirectory root.toText = .ok base)
    (hdirectory : files.root.at? base = some (.directory entries)) {source : Location × Nat}
    (h : source ∈ files.sizedSources config root.toText (walkEntries config.excludedDirectories entries)) :
    Path.ofText (root.shown source.1) = root.below source.1 := by
  obtain ⟨location, size⟩ := source
  obtain ⟨directories, name, rfl, ⟨⟨node, hnode, hlists⟩, -, -⟩, -⟩ := (mem_sizedSources_walk hfiles hbase hdirectory).mp h
  exact Path.ofText_shown hroot (isEntryName_of_lists hfiles hnode hlists) (by simp)

/-- Below a directory the selection ends as it is to end. -/
theorem isSelection_sourceFiles (hfiles : files.root.isProper = true) (config : Config) (hroot : root.IsNormal)
    (hnul : root.holdsNul = false) (hbase : files.locate files.workingDirectory root.toText = .ok base)
    (hdirectory : files.root.at? base = some (.directory entries)) :
    ∃ paths log, files.sourceFiles config root = .ok (paths, log) ∧ files.IsSelection config root base paths log := by
  have hopened := open?_eq_ok_iff_locate.mpr ⟨base, hbase, hdirectory⟩
  have hdistinct : (files.sizedSources config root.toText (walkEntries config.excludedDirectories entries)).Nodup :=
    nodup_sizedSources (nodup_walkEntries _ entries (FileNode.isProper_at? hfiles hdirectory).1)
  refine ⟨_, _, sourceFiles_eq hnul hopened, ?ordered, ?selected, ?logged⟩
  case ordered =>
    apply Path.sortBy_pairwise_lt
    rw [List.map_map]
    refine List.Nodup.map_on (fun source hsource other hother heq => ?_) (hdistinct.filter _)
    have hmem := (List.mem_filter.mp hsource).1
    have hmem' := (List.mem_filter.mp hother).1
    simp only [Function.comp_apply, ofText_of_mem_sizedSources hfiles hroot hbase hdirectory hmem,
      ofText_of_mem_sizedSources hfiles hroot hbase hdirectory hmem', Path.components_below] at heq
    have hlocation : source.1 = other.1 := List.append_cancel_left heq
    have hsize : some source.2 = some other.2 := by
      rw [← (mem_sizedSources.mp hmem).2, ← (mem_sizedSources.mp hmem').2, hlocation]
    exact Prod.ext hlocation (Option.some.inj hsize)
  case selected =>
    intro path
    simp only [(sortBy_perm _ _).mem_iff, List.mem_map, List.mem_filter, decide_eq_true_eq, maxFileBytes_eq]
    constructor
    · rintro ⟨⟨location, size⟩, ⟨hmem, hlimit⟩, rfl⟩
      have hpath := ofText_of_mem_sizedSources hfiles hroot hbase hdirectory hmem
      obtain ⟨directories, name, rfl, hsource, haccepted⟩ := (mem_sizedSources_walk hfiles hbase hdirectory).mp hmem
      exact ⟨directories, name, size, hsource, haccepted, hlimit, hpath⟩
    · rintro ⟨directories, name, size, hsource, haccepted, hlimit, rfl⟩
      have hmem := (mem_sizedSources_walk hfiles hbase hdirectory).mpr ⟨directories, name, rfl, hsource, haccepted⟩
      exact ⟨_, ⟨hmem, hlimit⟩, ofText_of_mem_sizedSources hfiles hroot hbase hdirectory hmem⟩
  case logged =>
    refine ⟨_, hdistinct.filter _, fun location size => ?_, rfl⟩
    simp only [List.mem_filter, decide_eq_true_eq, maxFileBytes_eq, mem_sizedSources_walk hfiles hbase hdirectory]
    constructor
    · rintro ⟨⟨directories, name, hlocation, hsource, haccepted⟩, hlimit⟩
      exact ⟨directories, name, hlocation, hsource, haccepted, hlimit⟩
    · rintro ⟨directories, name, hlocation, hsource, haccepted, hlimit⟩
      exact ⟨⟨directories, name, hlocation, hsource, haccepted⟩, hlimit⟩

/-- Every selection ends in one of three ways: the root holds a NUL and is refused, it is no directory and there is nothing
below it, or exactly the sources below it are selected. -/
theorem sourceFiles_isSelection (hfiles : files.root.isProper = true) (config : Config) (text : Text) :
    let root := Path.ofText text
    (root.holdsNul = true → files.sourceFiles config root = .error .nulInPath) ∧
      (root.holdsNul = false →
        (∀ base entries, files.locate files.workingDirectory root.toText = .ok base →
          files.root.at? base = some (.directory entries) →
          ∃ paths log, files.sourceFiles config root = .ok (paths, log) ∧ files.IsSelection config root base paths log) ∧
        ((∀ base entries, files.locate files.workingDirectory root.toText = .ok base →
          files.root.at? base ≠ some (.directory entries)) → files.sourceFiles config root = .ok ([], []))) := by
  intro root
  refine ⟨fun hnul => by rw [sourceFiles, if_pos hnul], fun hnul => ⟨fun base entries hbase hdirectory => ?_, fun hnone => ?_⟩⟩
  · exact isSelection_sourceFiles hfiles config (Path.isNormal_ofText text) hnul hbase hdirectory
  · have hopened : ∀ entries, files.open? files.workingDirectory root.toText ≠ .ok (.directory entries) := by
      intro entries hopened
      obtain ⟨base, hbase, hdirectory⟩ := open?_eq_ok_iff_locate.mp hopened
      exact hnone base entries hbase hdirectory
    rw [sourceFiles, hnul, if_neg Bool.false_ne_true]
    split
    · next entries hfound => exact absurd hfound (hopened entries)
    · rfl

/-- Below the root there are a name with points in front only, a link to a file and a link to nothing, an excluded directory,
a directory with the extension of a source, a link to it, and a file over the limit. -/
theorem sourceFiles_isSelection_links :
    let entries : List (Text × FileNode) :=
      [("A.CS", .file []), (".cs", .file []), ("link.cs", .link "../src/A.CS".toList), ("gone.cs", .link "B.cs".toList),
        ("bin", .directory [("C.cs".toList, .file [])]), ("dir.cs", .directory [("D.cs".toList, .file [])]),
        ("E.cs", .link "dir.cs".toList), ("big.cs", .file (List.replicate (5 * 2 ^ 20 + 1) 0))].map
        fun entry => (entry.1.toList, entry.2)
    let files : FileTree := { root := .directory [("src".toList, .directory entries)], workingDirectory := [] }
    let root := Path.ofText "./src".toList
    files.root.isProper = true ∧ ∃ paths log, files.sourceFiles {} root = .ok (paths, log) ∧
      files.IsSelection {} root ["src".toList] paths log := by
  intro entries files root
  have hproper : files.root.isProper = true := by decide +kernel
  have hbase : (files.locate files.workingDirectory root.toText).toOption = some ["src".toList] := by decide +kernel
  have hdirectory : files.root.at? ["src".toList] = some (.directory entries) := rfl
  obtain ⟨-, hselection⟩ := sourceFiles_isSelection hproper {} "./src".toList
  exact ⟨hproper, (hselection (by decide +kernel)).1 _ _ (eq_ok_of_toOption hbase) hdirectory⟩

/-- A source within the limit is passed over, without a record, where the text of its path is too long for the system. -/
theorem sourceFiles_refusedPath :
    let directory : Text := List.replicate 100 'd'
    let name : Text := List.replicate 60 'a' ++ ".cs".toList
    let files : FileTree :=
      { root := .directory [(directory, .directory [(name, .file (Utf8.encode "class A {}\n".toList))])], workingDirectory := [] }
    let root := Path.ofText (directory ++ (List.replicate 38 ("/../".toList ++ directory)).flatten)
    files.root.isProper = true ∧ root.holdsNul = false ∧
      files.locate files.workingDirectory root.toText = .ok [directory] ∧
      files.IsSource {} [directory] [] name 11 ∧ (11 : Int) ≤ ({} : Config).maxFileSizeMb * 2 ^ 20 ∧
      files.sourceFiles {} root = .ok ([], []) := by
  intro directory name files root
  have hlocate : (files.locate files.workingDirectory root.toText).toOption = some [directory] := by decide +kernel
  have hnothing : (files.sourceFiles {} root).toOption = some ([], []) := by decide +kernel
  have hlists : (FileNode.directory [(name, .file (Utf8.encode "class A {}\n".toList))]).Lists
      ({} : Config).excludedDirectories [] name :=
    FileNode.lists_nil.mpr ⟨_, rfl, rfl⟩
  have hextension : Path.IsExtension name ".cs".toList := Path.isExtension_iff.mpr (by decide +kernel)
  refine ⟨by decide +kernel, by decide +kernel, eq_ok_of_toOption hlocate, ⟨⟨_, rfl, hlists⟩, ⟨_, hextension, ?_⟩, ?_⟩,
    by decide, eq_ok_of_toOption hnothing⟩
  · decide +kernel
  · exact ⟨_, rfl, rfl⟩

end SourceOrigin.FileTree
