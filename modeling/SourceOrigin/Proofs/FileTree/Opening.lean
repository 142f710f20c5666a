import Mathlib.Algebra.GroupWithZero.Nat
import SourceOrigin.Proofs.FileTree.Reading

/-! What it says of a text that it leads to an entry: the names in it are those of entries, so it holds no NUL
(`holdsNul_of_open?`), and its normal form leads to the same entry (`open?_toText_ofText`). -/
namespace SourceOrigin

private theorem byteLength_eq (text : Text) : byteLength text = (text.map Char.utf8Size).sum := by
  have hfold (n : Nat) : text.foldl (fun n c => n + c.utf8Size) n = n + (text.map Char.utf8Size).sum := by
    induction text generalizing n with
    | nil => rfl
    | cons c rest ih =>
      rw [List.foldl_cons, ih, List.map_cons, List.sum_cons, Nat.add_assoc]
  rw [byteLength, hfold, Nat.zero_add]

private theorem byteLength_le_of_sublist {text whole : Text} (h : text.Sublist whole) :
    byteLength text ≤ byteLength whole := by
  rw [byteLength_eq, byteLength_eq]
  induction h with
  | slnil => exact Nat.le_refl _
  | cons c _ ih =>
    rw [List.map_cons, List.sum_cons]
    omega
  | cons_cons c _ ih =>
    rw [List.map_cons, List.map_cons, List.sum_cons, List.sum_cons]
    omega

private theorem not_mem_of_lookup {entries : List (Text × FileNode)} {name : Text} {node : FileNode}
    (h : isNulFreeIn entries = true) (hnode : entries.lookup name = some node) : '\x00' ∉ name := by
  induction entries with
  | nil => simp at hnode
  | cons entry rest ih =>
    obtain ⟨other, found⟩ := entry
    simp only [isNulFreeIn, Bool.and_eq_true, Bool.not_eq_true', List.contains_eq_mem, decide_eq_false_iff_not] at h
    rw [List.lookup_cons] at hnode
    split at hnode
    · next heq =>
      rw [eq_of_beq heq]
      exact h.1.1
    · exact ih h.2 hnode

inductive NameStep where
  | entry (location : Location)
  | link (target : Text)

namespace FileTree

def nameStep (files : FileTree) (location : Location) (name : Text) : Except PathError NameStep :=
  match files.root.at? location with
  | some (.directory entries) =>
    if Path.isIdle name then .ok (.entry location)
    else if name = ['.', '.'] then .ok (.entry location.dropLast)
    else if nameByteLimit < byteLength name then .error .tooLong
    else match entries.lookup name with
      | none => .error .missing
      | some (.link target) => .ok (.link target)
      | some _ => .ok (.entry (location ++ [name]))
  | _ => .error .notDirectory

variable {files : FileTree} {location found : Location} {names slim : List Text}
  {followLink : Location → Text → List Text → Except PathError Location}

theorem followNames_cons (files : FileTree) (followLink : Location → Text → List Text → Except PathError Location)
    (location : Location) (name : Text) (rest : List Text) :
    files.followNames followLink location (name :: rest) =
      match files.nameStep location name with
      | .error error => .error error
      | .ok (.entry next) => files.followNames followLink next rest
      | .ok (.link target) => followLink location target rest := by
  cases hnode : files.root.at? location with
  | none => simp only [followNames, nameStep, hnode]
  | some node =>
    cases node with
    | directory entries =>
      have hname : (decide (name = []) || decide (name = ['.'])) = Path.isIdle name := rfl
      simp only [followNames, nameStep, hnode, hname]
      by_cases hidle : Path.isIdle name = true
      · rw [if_pos hidle, if_pos hidle]
      rw [if_neg hidle, if_neg hidle]
      by_cases hparent : name = ['.', '.']
      · rw [if_pos hparent, if_pos hparent]
      rw [if_neg hparent, if_neg hparent]
      by_cases hlong : nameByteLimit < byteLength name
      · rw [if_pos hlong, if_pos hlong]
      rw [if_neg hlong, if_neg hlong]
      cases entries.lookup name with
      | none => rfl
      | some node => cases node <;> rfl
    | _ => simp only [followNames, nameStep, hnode]

theorem nameStep_of_isIdle {name : Text} (h : Path.isIdle name = true) {step : NameStep}
    (hstep : files.nameStep location name = .ok step) : step = .entry location := by
  unfold nameStep at hstep
  split at hstep
  · rw [if_pos h] at hstep
    exact (Except.ok.inj hstep).symm
  · simp at hstep

private theorem nameStep_of_idle {name other : Text} (h : Path.isIdle name = true) (hother : Path.isIdle other = true) :
    files.nameStep location name = files.nameStep location other := by
  unfold nameStep
  split
  · rw [if_pos h, if_pos hother]
  · rfl

/-! ### No NUL -/

private theorem not_mem_of_nameStep (hfiles : files.isNulFree = true) {name : Text} {step : NameStep}
    (h : files.nameStep location name = .ok step) : '\x00' ∉ name := by
  unfold nameStep at h
  split at h
  · next entries hentries =>
    have hnames : isNulFreeIn entries = true := FileNode.isNulFree_at? (Bool.and_eq_true_iff.mp hfiles).1 hentries
    split at h
    · next hidle =>
      obtain rfl | rfl : name = [] ∨ name = ['.'] := by simpa [Path.isIdle] using hidle
      all_goals decide
    split at h
    · next hparent =>
      rw [hparent]
      decide
    split at h
    · simp at h
    cases hentry : entries.lookup name with
    | none => simp [hentry] at h
    | some node => exact not_mem_of_lookup hnames hentry
  · simp at h

private theorem nulFree_of_followNames (hfiles : files.isNulFree = true)
    (hlink : ∀ {directory target rest}, followLink directory target rest = .ok found → NulFree rest)
    (h : files.followNames followLink location names = .ok found) : NulFree names := by
  induction names generalizing location with
  | nil => exact fun name hmem => absurd hmem List.not_mem_nil
  | cons name rest ih =>
    rw [followNames_cons] at h
    intro other hmem
    cases hstep : files.nameStep location name with
    | error error => simp [hstep] at h
    | ok step =>
      rcases List.mem_cons.mp hmem with rfl | hmem
      · exact not_mem_of_nameStep hfiles hstep
      · rw [hstep] at h
        cases step with
        | entry next => exact ih h other hmem
        | link target => exact hlink h other hmem

private theorem nulFree_of_follow (hfiles : files.isNulFree = true) (links : Nat)
    (h : files.follow links location names = .ok found) : NulFree names := by
  induction links generalizing location names with
  | zero => exact nulFree_of_followNames hfiles (fun hlink => by simp at hlink) h
  | succ links ih =>
    refine nulFree_of_followNames hfiles (fun {directory target rest} hlink => ?_) h
    exact fun name hmem => ih hlink name (List.mem_append_right _ hmem)

/-! ### The normal form -/

/-- Where names lead, they lead without idle ones. -/
theorem followNames_slims (hslims : Path.Slims names slim)
    (hlink : ∀ {directory target rest slim}, Path.Slims rest slim → followLink directory target rest = .ok found →
      followLink directory target slim = .ok found)
    (h : files.followNames followLink location names = .ok found) :
    files.followNames followLink location slim = .ok found := by
  induction hslims generalizing location with
  | nil => exact h
  | @keep name names slim hslims ih =>
    rw [followNames_cons] at h ⊢
    cases hstep : files.nameStep location name with
    | error error => simp [hstep] at h
    | ok step =>
      rw [hstep] at h
      cases step with
      | entry next => exact ih h
      | link target => exact hlink hslims h
  | @drop name names slim hidle _ ih =>
    rw [followNames_cons] at h
    cases hstep : files.nameStep location name with
    | error error => simp [hstep] at h
    | ok step =>
      obtain rfl := nameStep_of_isIdle hidle hstep
      rw [hstep] at h
      exact ih h
  | @change name other names slim hidle hother _ ih =>
    rw [followNames_cons] at h ⊢
    rw [← nameStep_of_idle hidle hother]
    cases hstep : files.nameStep location name with
    | error error => simp [hstep] at h
    | ok step =>
      obtain rfl := nameStep_of_isIdle hidle hstep
      rw [hstep] at h
      exact ih h

private theorem follow_slims (links : Nat) (hslims : Path.Slims names slim)
    (h : files.follow links location names = .ok found) : files.follow links location slim = .ok found := by
  induction links generalizing location names slim with
  | zero => exact followNames_slims hslims (fun _ hlink => by simp at hlink) h
  | succ links ih => exact followNames_slims hslims (fun hrest hlink => ih (hrest.append_left _) hlink) h

private theorem startOf_toText_ofText (directory : Location) (text : Text) :
    startOf directory (Path.ofText text).toText = startOf directory text := by
  simp only [startOf, (Path.isNormal_ofText text).head?_toText, Path.head?_iff_isAbsolute]

theorem locate_eq_ok_iff (directory : Location) (text : Text) (location : Location) :
    files.locate directory text = .ok location ↔ text ≠ [] ∧ byteLength text < pathByteLimit ∧
      files.follow linkLimit (startOf directory text) (Text.splitOn '/' text) = .ok location := by
  unfold locate
  split
  · simp_all
  split
  · next hlong => simp [Nat.not_lt.mpr hlong]
  · next hne hshort => simp [hne, Nat.lt_of_not_le hshort]

/-- A text leads to an entry if it can be followed to it. -/
theorem open?_eq_ok_iff (directory : Location) (text : Text) (node : FileNode) :
    files.open? directory text = .ok node ↔ text ≠ [] ∧ byteLength text < pathByteLimit ∧ ∃ location,
      files.follow linkLimit (startOf directory text) (Text.splitOn '/' text) = .ok location ∧
        files.root.at? location = some node := by
  simp only [open?_eq_ok_iff_locate, locate_eq_ok_iff]
  constructor
  · rintro ⟨location, ⟨hne, hshort, hfollow⟩, hnode⟩
    exact ⟨hne, hshort, location, hfollow, hnode⟩
  · rintro ⟨hne, hshort, location, hfollow, hnode⟩
    exact ⟨location, ⟨hne, hshort, hfollow⟩, hnode⟩

/-- A text that leads to an entry holds no NUL. -/
theorem holdsNul_of_open? (hfiles : files.isNulFree = true) {directory : Location} {text : Text} {node : FileNode}
    (h : files.open? directory text = .ok node) : (Path.ofText text).holdsNul = false := by
  obtain ⟨-, -, location, hfollow, -⟩ := (open?_eq_ok_iff directory text node).mp h
  have hnames := nulFree_of_follow hfiles linkLimit hfollow
  rw [Path.holdsNul_eq_false_iff]
  exact fun name hmem => hnames name (List.mem_filter.mp hmem).1

/-- The normal form of a text leads to the entry that the text leads to. -/
theorem open?_toText_ofText {directory : Location} {text : Text} {node : FileNode}
    (h : files.open? directory text = .ok node) : files.open? directory (Path.ofText text).toText = .ok node := by
  obtain ⟨hne, hshort, location, hfollow, hnode⟩ := (open?_eq_ok_iff directory text node).mp h
  have hslims := follow_slims linkLimit (Path.slims_splitOn hne) hfollow
  have hlength := byteLength_le_of_sublist (Path.toText_ofText_sublist hne)
  rw [open?_eq_ok_iff, startOf_toText_ofText]
  exact ⟨(Path.isNormal_ofText text).toText_ne_nil, by omega, location, hslims, hnode⟩

/-! ### The files that a walk selects -/

theorem fileSize?_eq_some_iff {text : Text} {size : Nat} : files.fileSize? text = some size ↔
    ∃ content, files.open? files.workingDirectory text = .ok (.file content) ∧ content.length = size := by
  unfold fileSize?
  split
  · next content hopened => simp [hopened]
  · next hother =>
    simp only [reduceCtorEq, false_iff]
    rintro ⟨content, hopened, -⟩
    exact hother content hopened

private theorem exists_file_of_mem_selectSources {config : Config} {root : Text} {locations : List Location} {path : Path}
    (h : path ∈ (files.selectSources config root locations).1) :
    ∃ shown content, path = Path.ofText shown ∧ files.open? files.workingDirectory shown = .ok (.file content) := by
  obtain ⟨location, -, size, hsize, rfl⟩ := exists_of_mem_selectSources h
  unfold sourceSize? at hsize
  split at hsize
  · obtain ⟨content, hopened, -⟩ := fileSize?_eq_some_iff.mp hsize
    exact ⟨_, content, rfl, hopened⟩
  · simp at hsize

/-- The text of a path that a walk selects stands for the path, and leads to a file. -/
theorem opens_of_mem_sourceFiles {config : Config} {root : Path} {paths : List Path} {log : Log}
    (h : files.sourceFiles config root = .ok (paths, log)) {path : Path} (hmem : path ∈ paths) :
    Path.ofText path.toText = path ∧
      ∃ content, files.open? files.workingDirectory path.toText = .ok (.file content) := by
  unfold sourceFiles at h
  split at h
  · simp at h
  split at h
  · obtain ⟨rfl, -⟩ := Prod.mk.inj (Except.ok.inj h)
    rw [(sortBy_perm _ _).mem_iff] at hmem
    obtain ⟨shown, content, rfl, hopened⟩ := exists_file_of_mem_selectSources hmem
    exact ⟨(Path.isNormal_ofText shown).ofText_toText, content, open?_toText_ofText hopened⟩
  · obtain ⟨rfl, -⟩ := Prod.mk.inj (Except.ok.inj h)
    exact absurd hmem List.not_mem_nil

end FileTree

end SourceOrigin
