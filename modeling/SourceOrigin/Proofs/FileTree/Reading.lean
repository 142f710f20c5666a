import SourceOrigin.FileTree.Walk
import SourceOrigin.Proofs.FileTree.NormalForm
import SourceOrigin.Proofs.Outcome

/-! Which errors the reading of a file can end in. No entry of a file system has a NUL in its name, and no link has one in
its target; in such a tree a path without NULs stands for a location without NULs (`holdsNul_resolve`), and reading it ends
in a unit or a fault of the file, or it is aborted for the encoding (`readUnit_cases`). The walk over a directory lists only
such paths (`exists_sourceFiles`). -/
namespace SourceOrigin

mutual
def FileNode.isNulFree : FileNode → Bool
  | .file _ => true
  | .directory entries => isNulFreeIn entries
  | .link target => !target.contains '\x00'

def isNulFreeIn : List (Text × FileNode) → Bool
  | [] => true
  | (name, node) :: rest => !name.contains '\x00' && node.isNulFree && isNulFreeIn rest
end

def FileTree.isNulFree (files : FileTree) : Bool :=
  files.root.isNulFree && files.workingDirectory.all (!·.contains '\x00')

def NulFree (location : Location) : Prop := ∀ name ∈ location, '\x00' ∉ name

theorem Path.holdsNul_eq_false_iff (path : Path) : path.holdsNul = false ↔ NulFree path.names := by
  simp [holdsNul, NulFree]

theorem NulFree.append {location other : Location} (h : NulFree location) (hother : NulFree other) :
    NulFree (location ++ other) := by
  intro name hmem
  rcases List.mem_append.mp hmem with hmem | hmem
  · exact h name hmem
  · exact hother name hmem

private theorem isNulFree_of_lookup {entries : List (Text × FileNode)} {name : Text} {node : FileNode}
    (h : isNulFreeIn entries = true) (hnode : entries.lookup name = some node) : node.isNulFree = true := by
  induction entries with
  | nil => simp at hnode
  | cons entry rest ih =>
    obtain ⟨other, found⟩ := entry
    simp only [isNulFreeIn, Bool.and_eq_true] at h
    rw [List.lookup_cons] at hnode
    split at hnode
    · obtain rfl := Option.some.inj hnode
      exact h.1.2
    · exact ih h.2 hnode

theorem FileNode.isNulFree_at? {node found : FileNode} {location : Location} (h : node.isNulFree = true)
    (hfound : node.at? location = some found) : found.isNulFree = true := by
  induction location generalizing node with
  | nil =>
    obtain rfl : node = found := Option.some.inj hfound
    exact h
  | cons name rest ih =>
    cases node with
    | directory entries =>
      obtain ⟨child, hchild, hrest⟩ := Option.bind_eq_some_iff.mp hfound
      exact ih (isNulFree_of_lookup h hchild) hrest
    | _ => simp [at?] at hfound

private theorem Text.mem_of_mem_splitOn {separator c : Char} {text piece : Text} (hpiece : piece ∈ splitOn separator text)
    (hc : c ∈ piece) : c ∈ text := by
  induction text generalizing piece with
  | nil =>
    obtain rfl : piece = [] := by simpa [splitOn] using hpiece
    simp at hc
  | cons d rest ih =>
    rw [splitOn] at ih hpiece
    rw [List.foldr_cons] at hpiece
    split at hpiece
    · rcases List.mem_cons.mp hpiece with rfl | hpiece
      · simp at hc
      · exact List.mem_cons_of_mem d (ih hpiece hc)
    split at hpiece
    · obtain rfl := List.mem_singleton.mp hpiece
      rw [List.mem_singleton.mp hc]
      exact List.mem_cons_self
    · next first others hsplit =>
      rcases List.mem_cons.mp hpiece with rfl | hpiece
      · rcases List.mem_cons.mp hc with rfl | hc
        · exact List.mem_cons_self
        · exact List.mem_cons_of_mem d (ih (hsplit ▸ List.mem_cons_self) hc)
      · exact List.mem_cons_of_mem d (ih (hsplit ▸ List.mem_cons_of_mem first hpiece) hc)

private theorem nulFree_splitOn {text : Text} (h : '\x00' ∉ text) : NulFree (Text.splitOn '/' text) :=
  fun _ hmem hnul => h (Text.mem_of_mem_splitOn hmem hnul)

private theorem nulFree_namesIn {text : Text} (h : '\x00' ∉ text) : NulFree (Path.namesIn text) :=
  fun name hmem => nulFree_splitOn h name (List.mem_filter.mp hmem).1

namespace FileTree
variable {files : FileTree}

private theorem nulFree_child {place : Place} {name : Text} (hplace : NulFree place.location) (hname : '\x00' ∉ name) :
    NulFree (place.child name).location := by
  refine hplace.append fun other hmem => ?_
  rwa [List.mem_singleton.mp hmem]

private theorem nulFree_dropLast {location : Location} (h : NulFree location) : NulFree location.dropLast :=
  fun other hmem => h other (List.dropLast_subset _ hmem)

private theorem nulFree_walkNames {location : Location} (hlocation : NulFree location) {names : List Text}
    (hnames : NulFree names) :
    NulFree (walkNames location names) := by
  induction names generalizing location with
  | nil => exact hlocation
  | cons name rest ih =>
    obtain ⟨hname, hrest⟩ := List.forall_mem_cons.mp hnames
    rw [walkNames]
    split
    · exact ih hlocation hrest
    split
    · exact ih (nulFree_dropLast hlocation) hrest
    · refine ih (hlocation.append fun other hmem => ?_) hrest
      rwa [List.mem_singleton.mp hmem]

private theorem nulFree_walkText {location : Location} (hlocation : NulFree location) {names : List Text}
    (hnames : NulFree names) :
    NulFree (walkText location names) := by
  unfold walkText
  split
  · exact nulFree_walkNames (fun other hmem => absurd hmem List.not_mem_nil) hnames
  · exact nulFree_walkNames hlocation hnames

section
variable {followLink : Place → Text → Text → Place × Bool} {place : Place} {name target : Text} {rest : List Text}

theorem followNamesLeniently_idle (h : Path.isIdle name = true) :
    files.followNamesLeniently followLink place (name :: rest) =
    files.followNamesLeniently followLink place rest := by
  rw [followNamesLeniently]
  exact if_pos h

theorem followNamesLeniently_parent : files.followNamesLeniently followLink place (['.', '.'] :: rest) =
    files.followNamesLeniently followLink (files.parent place) rest := by
  rw [followNamesLeniently, if_neg (by decide), if_pos rfl]

theorem followNamesLeniently_link (hidle : Path.isIdle name = false) (hparent : name ≠ ['.', '.'])
    (h : files.root.at? (place.child name).location = some (.link target)) :
    files.followNamesLeniently followLink place (name :: rest) =
      if (followLink place name target).2 then files.followNamesLeniently followLink (followLink place name target).1 rest
      else
        ({ (followLink place name target).1 with location := walkText (followLink place name target).1.location rest }, false) := by
  have hgoes : ¬ (decide (name = []) || decide (name = ['.'])) = true := ne_true_of_eq_false hidle
  rw [followNamesLeniently, if_neg hgoes, if_neg hparent, h]
  rcases hreached : followLink place name target with ⟨goal, _ | _⟩
  · simp [hreached]
  · simp [hreached]

theorem followNamesLeniently_entry (hidle : Path.isIdle name = false) (hparent : name ≠ ['.', '.'])
    (h : ∀ target, files.root.at? (place.child name).location ≠ some (.link target)) :
    files.followNamesLeniently followLink place (name :: rest) =
      files.followNamesLeniently followLink (place.child name) rest := by
  have hgoes : ¬ (decide (name = []) || decide (name = ['.'])) = true := ne_true_of_eq_false hidle
  rw [followNamesLeniently, if_neg hgoes, if_neg hparent]
  split
  · next target hfound => exact absurd hfound (h target)
  · rfl

/-- A name leads nowhere else, or up, or to a link, or down to what is no link. -/
theorem lenientStep_cases (files : FileTree) (place : Place) (name : Text) : Path.isIdle name = true ∨ name = ['.', '.'] ∨
    Path.isIdle name = false ∧ name ≠ ['.', '.'] ∧
      ((∃ target, files.root.at? (place.child name).location = some (.link target)) ∨
        ∀ target, files.root.at? (place.child name).location ≠ some (.link target)) := by
  cases hidle : Path.isIdle name with
  | true => exact .inl rfl
  | false =>
    by_cases hparent : name = ['.', '.']
    · exact .inr (.inl hparent)
    · exact .inr (.inr ⟨rfl, hparent, Classical.or_iff_not_imp_left.mpr not_exists.mp⟩)

end

private theorem nulFree_followNamesLeniently (hfiles : files.isNulFree = true)
    {followLink : Place → Text → Text → Place × Bool}
    (hlink : ∀ {place name target}, NulFree place.location → '\x00' ∉ name → '\x00' ∉ target →
      NulFree (followLink place name target).1.location) {place : Place} (hplace : NulFree place.location)
    {names : List Text} (hnames : NulFree names) :
    NulFree (files.followNamesLeniently followLink place names).1.location := by
  induction names generalizing place with
  | nil => exact hplace
  | cons name rest ih =>
    obtain ⟨hname, hrest⟩ := List.forall_mem_cons.mp hnames
    rcases files.lenientStep_cases place name with hidle | rfl | ⟨hidle, hparent, ⟨target, hfound⟩ | hentry⟩
    · rw [followNamesLeniently_idle hidle]
      exact ih hplace hrest
    · rw [followNamesLeniently_parent]
      exact ih (nulFree_dropLast hplace) hrest
    · have hroot : files.root.isNulFree = true := (Bool.and_eq_true_iff.mp hfiles).1
      have htarget : '\x00' ∉ target := by
        simpa [FileNode.isNulFree] using FileNode.isNulFree_at? hroot hfound
      have hgoal := hlink hplace hname htarget
      rw [followNamesLeniently_link hidle hparent hfound]
      split
      · exact ih hgoal hrest
      · exact nulFree_walkText hgoal hrest
    · rw [followNamesLeniently_entry hidle hparent hentry]
      exact ih (nulFree_child hplace hname) hrest

private theorem nulFree_followLeniently (hfiles : files.isNulFree = true) (unseen : List Place) {place : Place}
    (hplace : NulFree place.location) {names : List Text} (hnames : NulFree names) :
    NulFree (files.followLeniently unseen place names).1.location := by
  induction hlength : unseen.length using Nat.strongRecOn generalizing unseen place names with
  | _ length ih =>
    rw [followLeniently]
    refine nulFree_followNamesLeniently hfiles (fun {directory name target} hdirectory hname htarget => ?_) hplace hnames
    split
    · next hunseen =>
      refine ih _ (hlength ▸ length_allBut_lt hunseen) _ ?_ (nulFree_splitOn htarget) rfl
      unfold Place.startOf
      split
      · exact fun other hmem => absurd hmem List.not_mem_nil
      · exact hdirectory
    · exact nulFree_child hdirectory hname

/-- A path without NULs stands for a location without NULs. -/
theorem holdsNul_resolve (hfiles : files.isNulFree = true) {path : Path} (hpath : path.holdsNul = false) :
    (Path.ofLocation (files.resolve path)).holdsNul = false := by
  rw [Path.holdsNul_eq_false_iff] at hpath ⊢
  refine nulFree_followLeniently hfiles _ ?_ hpath
  split
  · exact fun other hmem => absurd hmem List.not_mem_nil
  · intro name hmem
    simpa using List.all_eq_true.mp (Bool.and_eq_true_iff.mp hfiles).2 name hmem

theorem resolutionError?_eq_none_iff {path : Path} :
    files.resolutionError? path = none ↔ path.holdsNul = false ∧ files.isCircular path = false := by
  unfold resolutionError?
  cases path.holdsNul <;> cases files.isCircular path <;> simp

/-- The reading of a file ends in an error that is no fault of the file: the encoding's name holds a NUL, or the file is
opened and there is no such encoding, or its codec gives no text, or fails in a way of its own. -/
inductive AbortsReading (files : FileTree) (path : Path) (encodingName : Text) : LoadError → Prop where
  | nul : encodingName.contains '\x00' = true → AbortsReading files path encodingName .nulInEncoding
  | unknown {content : Bytes} : encodingName.contains '\x00' = false → files.readBytes path = .ok content →
      Encoding.ofName? encodingName = none → files.codecs encodingName = none →
      AbortsReading files path encodingName (.unknownEncoding encodingName)
  | binary {content : Bytes} : encodingName.contains '\x00' = false → files.readBytes path = .ok content →
      Encoding.ofName? encodingName = none → files.codecs encodingName = some .binary →
      AbortsReading files path encodingName (.binaryEncoding encodingName)
  | failure {content : Bytes} {decode : Bytes → Except CodecError Text} {kind message : String} :
      encodingName.contains '\x00' = false → files.readBytes path = .ok content →
      Encoding.ofName? encodingName = none → files.codecs encodingName = some (.text decode) →
      decode content = .error (.failed kind message) →
      AbortsReading files path encodingName (.codecFailure kind message)

theorem AbortsReading.ne_unreadable {path : Path} {encodingName file : Text} {fault : ReadFault} :
    ¬ files.AbortsReading path encodingName (.unreadable file fault) := nofun

theorem AbortsReading.readUnit_eq {path : Path} {encodingName : Text} {error : LoadError}
    (h : files.AbortsReading path encodingName error) (hpath : path.holdsNul = false) :
    files.readUnit path encodingName = .error error := by
  unfold readUnit
  cases h with
  | nul hnul => rw [if_pos hnul]
  | unknown hnul hread hname hcodec => simp only [hnul, hpath, hread, decode, hname, hcodec, if_false, Bool.false_eq_true]
  | binary hnul hread hname hcodec => simp only [hnul, hpath, hread, decode, hname, hcodec, if_false, Bool.false_eq_true]
  | failure hnul hread hname hcodec hfailed =>
    simp only [hnul, hpath, hread, decode, hname, hcodec, hfailed, mapError_error, if_false, Bool.false_eq_true]

/-- An opened file is decoded to a text, or is at fault, or the reading is aborted. -/
private theorem decode_cases {path : Path} {encodingName : Text} {content : Bytes}
    (hnul : encodingName.contains '\x00' = false) (hread : files.readBytes path = .ok content) :
    (∃ text, files.decode path encodingName content = .ok text) ∨
    (∃ file fault, files.decode path encodingName content = .error (.unreadable file fault)) ∨
    ∃ error, files.decode path encodingName content = .error error ∧ files.AbortsReading path encodingName error := by
  unfold FileTree.decode
  cases hname : Encoding.ofName? encodingName with
  | some encoding =>
    simp only
    cases encoding.decode content with
    | ok text => exact .inl ⟨text, rfl⟩
    | error fault => exact .inr (.inl ⟨_, _, rfl⟩)
  | none =>
    cases hcodec : files.codecs encodingName with
    | none => exact .inr (.inr ⟨_, rfl, .unknown hnul hread hname hcodec⟩)
    | some codec =>
      cases codec with
      | binary => exact .inr (.inr ⟨_, rfl, .binary hnul hread hname hcodec⟩)
      | text decode =>
        simp only
        cases hdecode : decode content with
        | ok text => exact .inl ⟨text, rfl⟩
        | error error =>
          cases error with
          | undecodable message => exact .inr (.inl ⟨_, _, rfl⟩)
          | failed kind message => exact .inr (.inr ⟨_, rfl, .failure hnul hread hname hcodec hdecode⟩)

/-- Reading ends in a unit or a fault of the file, unless it is aborted. -/
theorem readUnit_cases (files : FileTree) {path : Path} (hpath : path.holdsNul = false) (encodingName : Text) :
    (∃ unit, files.readUnit path encodingName = .ok unit) ∨
    (∃ file fault, files.readUnit path encodingName = .error (.unreadable file fault)) ∨
    ∃ error, files.AbortsReading path encodingName error := by
  unfold readUnit
  cases hnul : encodingName.contains '\x00' with
  | true => exact .inr (.inr ⟨_, .nul hnul⟩)
  | false =>
    rw [hpath, if_neg Bool.false_ne_true, if_neg Bool.false_ne_true]
    cases hread : files.readBytes path with
    | error fault => exact .inr (.inl ⟨_, fault, rfl⟩)
    | ok content =>
      simp only
      rcases decode_cases hnul hread with ⟨text, hdecode⟩ | ⟨file, fault, hdecode⟩ | ⟨error, -, haborts⟩
      · rw [hdecode]
        exact .inl ⟨_, rfl⟩
      · rw [hdecode]
        exact .inr (.inl ⟨file, fault, rfl⟩)
      · exact .inr (.inr ⟨error, haborts⟩)

end FileTree

/-! ### The walk over a directory -/

mutual
private theorem nulFree_walkEntry (excluded : List Text) {name : Text} (hname : '\x00' ∉ name) :
    ∀ node : FileNode, node.isNulFree = true → ∀ location ∈ walkEntry excluded name node, NulFree location
  | .file _, _, location, hmem => by
    obtain rfl : location = [name] := by simpa [walkEntry] using hmem
    exact fun other hother => List.mem_singleton.mp hother ▸ hname
  | .link _, _, location, hmem => by
    obtain rfl : location = [name] := by simpa [walkEntry] using hmem
    exact fun other hother => List.mem_singleton.mp hother ▸ hname
  | .directory entries, hnode, location, hmem => by
    rw [walkEntry] at hmem
    split at hmem
    · simp at hmem
    · obtain ⟨below, hbelow, rfl⟩ := List.mem_map.mp hmem
      have hrest := nulFree_walkEntries excluded entries hnode below hbelow
      intro other hother
      rcases List.mem_cons.mp hother with rfl | hother
      · exact hname
      · exact hrest other hother

private theorem nulFree_walkEntries (excluded : List Text) :
    ∀ entries : List (Text × FileNode), isNulFreeIn entries = true →
      ∀ location ∈ walkEntries excluded entries, NulFree location
  | [], _, location, hmem => by simp [walkEntries] at hmem
  | (name, node) :: rest, h, location, hmem => by
    simp only [isNulFreeIn, Bool.and_eq_true, Bool.not_eq_true', List.contains_eq_mem, decide_eq_false_iff_not] at h
    rw [walkEntries] at hmem
    rcases List.mem_append.mp hmem with hmem | hmem
    · exact nulFree_walkEntry excluded h.1.1 node h.1.2 location hmem
    · exact nulFree_walkEntries excluded rest h.2 location hmem
end

private theorem Path.not_mem_joinNames {names : List Text} (h : NulFree names) : '\x00' ∉ joinNames names := by
  induction names with
  | nil => simp [joinNames, List.intercalate]
  | cons first rest ih =>
    have hfirst : '\x00' ∉ first := h first List.mem_cons_self
    cases rest with
    | nil => simpa [joinNames, List.intercalate] using hfirst
    | cons second rest =>
      have hrest := ih fun other hmem => h other (List.mem_cons_of_mem first hmem)
      rw [joinNames_cons (List.cons_ne_nil second rest)]
      simp [hfirst, hrest]

private theorem Path.not_mem_joinText {directory name : Text} (hdirectory : '\x00' ∉ directory) (hname : '\x00' ∉ name) :
    '\x00' ∉ joinText directory name := by
  unfold joinText
  split
  · simp [hdirectory, hname]
  · simp [hdirectory, hname]

namespace FileTree
variable {files : FileTree}

def sourceSize? (files : FileTree) (config : Config) (root : Text) (location : Location) : Option Nat :=
  if hasTargetExtension config (location.getLastD []) then files.fileSize? (location.foldl Path.joinText root) else none

def sizedSources (files : FileTree) (config : Config) (root : Text) (locations : List Location) : List (Location × Nat) :=
  locations.filterMap fun location => (files.sourceSize? config root location).map (location, ·)

theorem mem_sizedSources {config : Config} {root : Text} {locations : List Location} {location : Location} {size : Nat} :
    (location, size) ∈ files.sizedSources config root locations ↔
      location ∈ locations ∧ files.sourceSize? config root location = some size := by
  simp [sizedSources]

/-- The files within the limit are chosen, and the others are recorded. -/
theorem selectSources_eq (files : FileTree) (config : Config) (root : Text) (locations : List Location) :
    files.selectSources config root locations =
      (((files.sizedSources config root locations).filter fun source => (source.2 : Int) ≤ config.maxFileBytes).map
          fun source => Path.ofText (source.1.foldl Path.joinText root),
        ((files.sizedSources config root locations).filter fun source => config.maxFileBytes < (source.2 : Int)).map
          fun source => tooLarge (source.1.foldl Path.joinText root) source.2) := by
  induction locations with
  | nil => rfl
  | cons location rest ih =>
    rw [selectSources, ih]
    simp only [sizedSources, List.filterMap_cons, sourceSize?]
    cases hextension : hasTargetExtension config (location.getLastD []) with
    | false => simp
    | true =>
      cases hsize : files.fileSize? (location.foldl Path.joinText root) with
      | none => simp
      | some size =>
        by_cases hlimit : (size : Int) ≤ config.maxFileBytes
        · simp [hlimit, Int.not_lt.mpr hlimit]
        · simp [hlimit, Int.not_le.mp hlimit]

theorem exists_of_mem_selectSources {config : Config} {root : Text} {locations : List Location} {path : Path}
    (h : path ∈ (files.selectSources config root locations).1) : ∃ location ∈ locations, ∃ size,
      files.sourceSize? config root location = some size ∧ path = Path.ofText (location.foldl Path.joinText root) := by
  rw [selectSources_eq] at h
  obtain ⟨⟨location, size⟩, hmem, rfl⟩ := List.mem_map.mp h
  obtain ⟨hlocation, hsize⟩ := mem_sizedSources.mp (List.mem_filter.mp hmem).1
  exact ⟨location, hlocation, size, hsize, rfl⟩

private theorem nulFree_selectSources (files : FileTree) (config : Config) {root : Text} (hroot : '\x00' ∉ root)
    {locations : List Location} (h : ∀ location ∈ locations, NulFree location) :
    ∀ path ∈ (files.selectSources config root locations).1, path.holdsNul = false := by
  intro path hmem
  obtain ⟨location, hlocation, -, -, rfl⟩ := exists_of_mem_selectSources hmem
  have hshown : '\x00' ∉ location.foldl Path.joinText root := by
    have hnames := h location hlocation
    clear hlocation hmem
    induction location generalizing root with
    | nil => exact hroot
    | cons name names ih =>
      refine ih (Path.not_mem_joinText hroot (hnames name List.mem_cons_self)) ?_
      exact fun other hother => hnames other (List.mem_cons_of_mem name hother)
  exact (Path.holdsNul_eq_false_iff _).mpr (nulFree_namesIn hshown)

/-- A text leads to an entry if there is one at the place that the text leads to. -/
theorem open?_eq_ok_iff_locate {directory : Location} {text : Text} {node : FileNode} :
    files.open? directory text = .ok node ↔
      ∃ location, files.locate directory text = .ok location ∧ files.root.at? location = some node := by
  unfold open?
  cases files.locate directory text with
  | error error => simp
  | ok location => cases hnode : files.root.at? location <;> simp [hnode]

/-- Below a directory without NULs in its path only such paths are found. -/
theorem exists_sourceFiles (hfiles : files.isNulFree = true) (config : Config) {directory : Path}
    (hdirectory : directory.holdsNul = false) :
    ∃ paths log, files.sourceFiles config (Path.ofLocation (files.resolve directory)) = .ok (paths, log) ∧
      ∀ path ∈ paths, path.holdsNul = false := by
  have hroot := holdsNul_resolve hfiles hdirectory
  unfold sourceFiles
  rw [hroot, if_neg Bool.false_ne_true]
  split
  · next entries hopened =>
    have hentries : isNulFreeIn entries = true := by
      obtain ⟨location, -, hfound⟩ := open?_eq_ok_iff_locate.mp hopened
      exact FileNode.isNulFree_at? (Bool.and_eq_true_iff.mp hfiles).1 hfound
    have hshown : '\x00' ∉ (Path.ofLocation (files.resolve directory)).toText := by
      have hnames := Path.not_mem_joinNames ((Path.holdsNul_eq_false_iff _).mp hroot)
      simpa [Path.toText, Path.ofLocation] using hnames
    refine ⟨_, _, rfl, fun path hmem => ?_⟩
    refine nulFree_selectSources files config hshown ?_ path ((sortBy_perm _ _).mem_iff.mp hmem)
    exact nulFree_walkEntries config.excludedDirectories entries hentries
  · exact ⟨[], [], rfl, by simp⟩

end FileTree

end SourceOrigin
