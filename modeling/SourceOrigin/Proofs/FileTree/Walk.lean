import SourceOrigin.FileTree.Walk
import SourceOrigin.Proofs.FileTree.NormalForm
import Mathlib.Data.List.Nodup

/-! What a walk over a directory finds: exactly the entries that are no directories, below directories that are no links
and whose names are not excluded (`mem_walkEntries_iff`), and each of them once (`nodup_walkEntries`). -/
namespace SourceOrigin

/-- A name that an entry can have: it leads nowhere by itself, and is one name only. -/
def isEntryName (name : Text) : Bool := !Path.isIdle name && name != ['.', '.'] && !name.contains '/'

mutual
/-- The entries of every directory are told apart by their names, and the names are such as entries can have. -/
def FileNode.isProper : FileNode → Bool
  | .file _ => true
  | .directory entries => isProperIn entries
  | .link _ => true

def isProperIn : List (Text × FileNode) → Bool
  | [] => true
  | (name, node) :: rest => isEntryName name && rest.all (·.1 != name) && node.isProper && isProperIn rest
end

def FileNode.isDirectory : FileNode → Bool
  | .directory _ => true
  | _ => false

/-- Names of directories lead from the entry to one with the last name that is no directory. No directory on the way is a
link, and none has an excluded name. -/
structure FileNode.Lists (node : FileNode) (excluded directories : List Text) (name : Text) : Prop where
  entered : ∀ directory ∈ directories, directory ∉ excluded
  entry : ∃ entry, node.at? (directories ++ [name]) = some entry ∧ entry.isDirectory = false

variable {excluded directories : List Text} {name : Text} {node : FileNode} {entries : List (Text × FileNode)}
  {location : Location}

private theorem isProperIn_cons {rest : List (Text × FileNode)} (h : isProperIn ((name, node) :: rest) = true) :
    isEntryName name = true ∧ rest.lookup name = none ∧ node.isProper = true ∧ isProperIn rest = true := by
  simp only [isProperIn, Bool.and_eq_true] at h
  obtain ⟨⟨⟨hname, hother⟩, hnode⟩, hrest⟩ := h
  refine ⟨hname, List.lookup_eq_none_iff.mpr fun entry hmem => ?_, hnode, hrest⟩
  have hne := List.all_eq_true.mp hother entry hmem
  rwa [bne_comm] at hne

private theorem mem_iff_lookup (h : isProperIn entries = true) :
    (name, node) ∈ entries ↔ entries.lookup name = some node := by
  induction entries with
  | nil => simp
  | cons entry rest ih =>
    obtain ⟨other, found⟩ := entry
    obtain ⟨-, hnone, -, hrest⟩ := isProperIn_cons h
    rw [List.mem_cons, ih hrest, List.lookup_cons]
    by_cases hname : name = other
    · subst hname
      simp [hnone, eq_comm]
    · rw [beq_eq_false_iff_ne.mpr hname]
      simp [hname]

private theorem isProper_of_lookup (h : isProperIn entries = true) (hnode : entries.lookup name = some node) :
    isEntryName name = true ∧ node.isProper = true := by
  rw [← mem_iff_lookup h] at hnode
  induction entries with
  | nil => simp at hnode
  | cons entry rest ih =>
    obtain ⟨hname, -, hfound, hrest⟩ := isProperIn_cons h
    rcases List.mem_cons.mp hnode with heq | hmem
    · obtain ⟨rfl, rfl⟩ := Prod.mk.inj heq
      exact ⟨hname, hfound⟩
    · exact ih hrest hmem

/-- The names that lead to an entry are such as entries can have. -/
theorem FileNode.isProper_at? {found : FileNode} (h : node.isProper = true) (hfound : node.at? location = some found) :
    found.isProper = true ∧ ∀ name ∈ location, isEntryName name = true := by
  induction location generalizing node with
  | nil =>
    obtain rfl : node = found := Option.some.inj hfound
    exact ⟨h, by simp⟩
  | cons name rest ih =>
    cases node with
    | directory entries =>
      obtain ⟨child, hchild, hrest⟩ := Option.bind_eq_some_iff.mp hfound
      obtain ⟨hname, hproper⟩ := isProper_of_lookup h hchild
      obtain ⟨hend, hnames⟩ := ih hproper hrest
      exact ⟨hend, List.forall_mem_cons.mpr ⟨hname, hnames⟩⟩
    | _ => simp [at?] at hfound

theorem FileNode.at?_append (node : FileNode) (location more : Location) :
    node.at? (location ++ more) = (node.at? location).bind (·.at? more) := by
  induction location generalizing node with
  | nil => rfl
  | cons name rest ih =>
    cases node with
    | directory entries =>
      simp only [List.cons_append, at?, Option.bind_assoc, ih]
    | _ => rfl

/-- What leads further is a directory. -/
theorem FileNode.exists_directory_of_at? {found : FileNode} {rest : Location}
    (h : node.at? (location ++ name :: rest) = some found) : ∃ entries, node.at? location = some (.directory entries) := by
  rw [at?_append] at h
  obtain ⟨last, hlast, hname⟩ := Option.bind_eq_some_iff.mp h
  cases last with
  | directory entries => exact ⟨entries, hlast⟩
  | _ => simp [at?] at hname

/-! ### Membership -/

namespace FileNode

theorem lists_nil : (FileNode.directory entries).Lists excluded [] name ↔
    ∃ entry, entries.lookup name = some entry ∧ entry.isDirectory = false := by
  constructor
  · rintro ⟨-, entry, hentry, hdirectory⟩
    exact ⟨entry, by simpa [at?] using hentry, hdirectory⟩
  · rintro ⟨entry, hentry, hdirectory⟩
    exact ⟨by simp, entry, by simpa [at?] using hentry, hdirectory⟩

private theorem lists_cons {first : Text} : (FileNode.directory entries).Lists excluded (first :: directories) name ↔
    first ∉ excluded ∧ ∃ below, entries.lookup first = some below ∧ below.Lists excluded directories name := by
  constructor
  · rintro ⟨hentered, entry, hentry, hdirectory⟩
    obtain ⟨hfirst, hrest⟩ := List.forall_mem_cons.mp hentered
    obtain ⟨below, hbelow, hat⟩ := Option.bind_eq_some_iff.mp hentry
    exact ⟨hfirst, below, hbelow, hrest, entry, hat, hdirectory⟩
  · rintro ⟨hfirst, below, hbelow, hrest, entry, hat, hdirectory⟩
    exact ⟨List.forall_mem_cons.mpr ⟨hfirst, hrest⟩, entry, Option.bind_eq_some_iff.mpr ⟨below, hbelow, hat⟩, hdirectory⟩

private theorem Lists.exists_directory (h : node.Lists excluded directories name) :
    ∃ entries, node = .directory entries := by
  obtain ⟨-, entry, hentry, -⟩ := h
  have hnode : ∃ entries, node.at? [] = some (.directory entries) := by
    cases directories with
    | nil => exact exists_directory_of_at? hentry
    | cons first directories => exact exists_directory_of_at? hentry
  exact hnode.imp fun entries hentries => Option.some.inj hentries

end FileNode

private theorem mem_walkEntries : location ∈ walkEntries excluded entries ↔
    ∃ name node, (name, node) ∈ entries ∧ location ∈ walkEntry excluded name node := by
  induction entries with
  | nil => simp [walkEntries]
  | cons entry rest ih =>
    obtain ⟨name, node⟩ := entry
    rw [walkEntries, List.mem_append, ih]
    simp only [List.mem_cons, Prod.mk.injEq]
    constructor
    · rintro (hhere | ⟨other, found, hmem, hthere⟩)
      · exact ⟨name, node, .inl ⟨rfl, rfl⟩, hhere⟩
      · exact ⟨other, found, .inr hmem, hthere⟩
    · rintro ⟨other, found, ⟨rfl, rfl⟩ | hmem, hthere⟩
      · exact .inl hthere
      · exact .inr ⟨other, found, hmem, hthere⟩

/-- What is found of an entry begins with its name; then the entry is no directory, or it is one that is entered. -/
theorem mem_walkEntry : location ∈ walkEntry excluded name node ↔
    location = [name] ∧ node.isDirectory = false ∨
      ∃ entries below, node = .directory entries ∧ name ∉ excluded ∧ below ∈ walkEntries excluded entries ∧
        location = name :: below := by
  cases node with
  | file content => simp [walkEntry, FileNode.isDirectory]
  | link target => simp [walkEntry, FileNode.isDirectory]
  | directory entries =>
    by_cases hexcluded : name ∈ excluded
    · simp [walkEntry, FileNode.isDirectory, hexcluded]
    · simp [walkEntry, FileNode.isDirectory, hexcluded, eq_comm]

theorem exists_append_of_mem_walkEntries (h : location ∈ walkEntries excluded entries) :
    ∃ directories name, location = directories ++ [name] := by
  obtain ⟨name, node, -, hmem⟩ := mem_walkEntries.mp h
  have hne : location ≠ [] := by
    rintro rfl
    simp [mem_walkEntry] at hmem
  exact ⟨location.dropLast, location.getLast hne, (List.dropLast_concat_getLast hne).symm⟩

/-- A walk finds what is listed below the directory that it starts in, and nothing else. -/
theorem mem_walkEntries_iff (h : isProperIn entries = true) : directories ++ [name] ∈ walkEntries excluded entries ↔
    (FileNode.directory entries).Lists excluded directories name := by
  induction directories generalizing entries with
  | nil =>
    rw [FileNode.lists_nil, mem_walkEntries]
    constructor
    · rintro ⟨other, node, hmem, hfound⟩
      rcases mem_walkEntry.mp hfound with ⟨heq, hnode⟩ | ⟨below, location, -, -, hbelow, heq⟩
      · obtain rfl := List.singleton_inj.mp heq
        exact ⟨node, (mem_iff_lookup h).mp hmem, hnode⟩
      · obtain ⟨directories, last, rfl⟩ := exists_append_of_mem_walkEntries hbelow
        simp at heq
    · rintro ⟨node, hlookup, hnode⟩
      exact ⟨name, node, (mem_iff_lookup h).mpr hlookup, mem_walkEntry.mpr (.inl ⟨rfl, hnode⟩)⟩
  | cons first directories ih =>
    rw [FileNode.lists_cons, mem_walkEntries]
    constructor
    · rintro ⟨other, node, hmem, hfound⟩
      have hlookup := (mem_iff_lookup h).mp hmem
      rcases mem_walkEntry.mp hfound with ⟨heq, -⟩ | ⟨below, location, rfl, hentered, hbelow, heq⟩
      · simp at heq
      · obtain ⟨rfl, rfl⟩ := List.cons.inj heq
        exact ⟨hentered, _, hlookup, (ih (isProper_of_lookup h hlookup).2).mp hbelow⟩
    · rintro ⟨hentered, node, hlookup, hlists⟩
      obtain ⟨below, rfl⟩ := hlists.exists_directory
      have hbelow := (ih (isProper_of_lookup h hlookup).2).mpr hlists
      exact ⟨first, _, (mem_iff_lookup h).mpr hlookup, mem_walkEntry.mpr (.inr ⟨below, _, rfl, hentered, hbelow, rfl⟩)⟩

/-! ### Each entry once -/

private theorem head?_of_mem_walkEntry (h : location ∈ walkEntry excluded name node) : location.head? = some name := by
  rcases mem_walkEntry.mp h with ⟨rfl, -⟩ | ⟨_, _, -, -, -, rfl⟩
  all_goals rfl

mutual
private theorem nodup_walkEntry (excluded : List Text) (name : Text) : ∀ node : FileNode, node.isProper = true →
    (walkEntry excluded name node).Nodup
  | .file _, _ => by simp [walkEntry]
  | .link _, _ => by simp [walkEntry]
  | .directory entries, h => by
    rw [walkEntry]
    split
    · exact List.nodup_nil
    · exact List.Nodup.map List.cons_injective (nodup_walkEntries excluded entries h)

/-- A walk finds no entry twice, as those that it finds of different entries begin with different names. -/
theorem nodup_walkEntries (excluded : List Text) : ∀ entries : List (Text × FileNode), isProperIn entries = true →
    (walkEntries excluded entries).Nodup
  | [], _ => List.nodup_nil
  | (name, node) :: rest, h => by
    obtain ⟨-, hnone, hnode, hrest⟩ := isProperIn_cons h
    rw [walkEntries]
    refine List.Nodup.append (nodup_walkEntry excluded name node hnode) (nodup_walkEntries excluded rest hrest) ?_
    intro location hhere hthere
    obtain ⟨other, found, hmem, hfound⟩ := mem_walkEntries.mp hthere
    have hother := head?_of_mem_walkEntry hfound
    rw [head?_of_mem_walkEntry hhere] at hother
    obtain rfl := Option.some.inj hother
    rw [mem_iff_lookup hrest, hnone] at hmem
    simp at hmem
end

end SourceOrigin
