import SourceOrigin.Proofs.FileName.DefaultPattern
import SourceOrigin.Proofs.FileTree.Components
import SourceOrigin.Proofs.FileTree.Reading

/-! The name that a path ends in, and the name of the file that the path stands for. The two are the same unless the path
ends at a link, or in no name of an entry. -/
namespace SourceOrigin
variable {files : FileTree} {directories name text : Text}

/-- Directories that end in a slash still do behind a slash. -/
private theorem getLast?_slash_cons (h : ∀ c ∈ directories.getLast?, c = '/') :
    ∀ c ∈ ('/' :: directories).getLast?, c = '/' := by
  cases directories with
  | nil => simp
  | cons c directories => rwa [List.getLast?_cons_cons]

private theorem baseName_append (h : ∀ c ∈ directories.getLast?, c = '/') (name : Text) :
    baseName (directories ++ name) = baseName name := by
  obtain ⟨front, hends⟩ := exists_endsInName name
  have hwhole : EndsInName (directories ++ name) (directories ++ front) (baseName name) := by
    refine ⟨by rw [List.append_assoc, ← hends.parts], ?_, hends.plain⟩
    by_cases hnil : front = []
    · subst hnil
      rw [List.append_nil]
      exact fun c hc => .inl (h c hc)
    · rw [List.getLast?_append_of_ne_nil _ hnil]
      exact hends.closed
  exact hwhole.baseName_eq

private theorem isGeneratedFileName_append (h : ∀ c ∈ directories.getLast?, c = '/') (hne : name ≠ []) (config : Config) :
    isGeneratedFileName config (some (directories ++ name)) = isGeneratedFileName config (some name) := by
  rw [isGeneratedFileName_of_ne_nil hne, isGeneratedFileName_of_ne_nil (by simp [hne]), baseName_append h]

namespace Path

private theorem ne_nil_of_entryName (h : isEntryName name = true) : name ≠ [] := by
  rintro rfl
  exact absurd (isEntryName_iff.mp h).1 (by decide)

private theorem exists_joinNames_concat (names : List Text) (name : Text) :
    ∃ directories, joinNames (names ++ [name]) = directories ++ name ∧ ∀ c ∈ directories.getLast?, c = '/' := by
  induction names with
  | nil => exact ⟨[], by simp [joinNames], by simp⟩
  | cons first rest ih =>
    obtain ⟨directories, hjoin, hlast⟩ := ih
    refine ⟨first ++ '/' :: directories, ?_, ?_⟩
    · rw [List.cons_append, joinNames_cons (by simp), hjoin, List.append_assoc, List.cons_append]
    · rw [List.getLast?_append_of_ne_nil _ (List.cons_ne_nil _ _)]
      exact getLast?_slash_cons hlast

private theorem isGeneratedFileName_ofLocation (config : Config) (location : Location) (hne : name ≠ []) :
    isGeneratedFileName config (some (ofLocation (location ++ [name])).toText) = isGeneratedFileName config (some name) := by
  obtain ⟨directories, hjoin, hlast⟩ := exists_joinNames_concat location name
  have htext : (ofLocation (location ++ [name])).toText = '/' :: directories ++ name := by
    rw [List.cons_append, ← hjoin]
    rfl
  rw [htext, isGeneratedFileName_append (getLast?_slash_cons hlast) hne]

private theorem root_ofText_append (hname : name.head? ≠ some '/') (text : Text) :
    (ofText (text ++ name)).root = (ofText text).root := by
  have hslash : ∀ c ∈ name.head?, c ≠ '/' := by
    rintro c hc rfl
    exact hname hc
  cases name with
  | nil => rw [List.append_nil]
  | cons n name =>
    have hn := hslash n rfl
    -- The root is told by the first three characters.
    rcases text with _ | ⟨c, _ | ⟨d, _ | ⟨e, rest⟩⟩⟩
    · simp [ofText, hn]
    · by_cases hc : c = '/' <;> simp [ofText, hc, hn]
    · by_cases hc : c = '/' <;> by_cases hd : d = '/' <;> simp [ofText, hc, hd, hn]
    · by_cases hc : c = '/' <;> by_cases hd : d = '/' <;> by_cases he : e = '/' <;> simp [ofText, hc, hd, he]

private theorem namesIn_entryName (h : isEntryName name = true) : namesIn name = [name] := by
  have hnormal : IsNormal ⟨[], [name]⟩ := isNormal_of_entryNames fun other hmem => List.mem_singleton.mp hmem ▸ h
  have hjoin : joinNames [name] = name := by simp [joinNames]
  have hnames := hnormal.namesIn_joinNames
  rwa [hjoin] at hnames

private theorem namesIn_append (hopen : ∀ c ∈ directories.getLast?, c = '/') (text : Text) :
    namesIn (directories ++ text) = namesIn directories ++ namesIn text := by
  by_cases hnil : directories = []
  · subst hnil
    rfl
  have hlast := List.getLast?_eq_some_getLast hnil
  rw [hopen _ hlast] at hlast
  obtain ⟨front, rfl⟩ := List.getLast?_eq_some_iff.mp hlast
  have hcut : ∀ rest, namesIn (front ++ '/' :: rest) = namesIn front ++ namesIn rest := by
    intro rest
    simp only [namesIn_eq, Text.splitOn_eq, List.splitOn_append_cons_self, List.filter_append]
  have hfront : namesIn (front ++ ['/']) = namesIn front := (hcut []).trans (List.append_nil _)
  rw [List.append_assoc, List.singleton_append, hcut, hfront]

/-- Directories in front of the name of an entry stand for the path in front of it. -/
theorem ofText_append_entryName (hopen : ∀ c ∈ directories.getLast?, c = '/') (hname : isEntryName name = true) :
    ofText (directories ++ name) = (ofText directories).below [name] := by
  obtain ⟨-, -, hslash⟩ := isEntryName_iff.mp hname
  have hroot := root_ofText_append (fun hhead => hslash (List.mem_of_head? hhead)) directories
  have hnames : namesIn (directories ++ name) = namesIn directories ++ [name] := by
    rw [namesIn_append hopen, namesIn_entryName hname]
  rw [below, Path.mk.injEq]
  exact ⟨hroot, hnames⟩

end Path

namespace FileTree

private theorem walkNames_concat (hname : isEntryName name = true) (location : Location) (names : List Text) :
    walkNames location (names ++ [name]) = walkNames location names ++ [name] := by
  obtain ⟨hidle, hparent, -⟩ := Path.isEntryName_iff.mp hname
  induction names generalizing location with
  | nil =>
    rw [Path.isIdle, Bool.or_eq_false_iff, decide_eq_false_iff_not, decide_eq_false_iff_not] at hidle
    simp [walkNames, hidle, hparent]
  | cons other names ih =>
    rw [List.cons_append, walkNames, walkNames]
    split
    · exact ih _
    · split <;> exact ih _

private theorem walkText_of_not_idle {names : List Text} (h : ∀ name ∈ names, Path.isIdle name = false)
    (location : Location) :
    walkText location names = walkNames location names := by
  unfold walkText
  split
  · exact absurd (h [] List.mem_cons_self) (by decide)
  · rfl

private theorem walkText_concat (hname : isEntryName name = true) {names : List Text}
    (hnames : ∀ other ∈ names, Path.isIdle other = false) (location : Location) :
    walkText location (names ++ [name]) = walkText location names ++ [name] := by
  have hidle := (Path.isEntryName_iff.mp hname).1
  rw [walkText_of_not_idle hnames, walkText_of_not_idle, walkNames_concat hname]
  exact List.forall_mem_append.mpr ⟨hnames, List.forall_mem_singleton.mpr hidle⟩

/-- A name at the end that is not that of a link is put behind what the names before it lead to. -/
private theorem followNamesLeniently_concat (hname : isEntryName name = true)
    {followLink : Place → Text → Text → Place × Bool} {names : List Text}
    (hnames : ∀ other ∈ names, Path.isIdle other = false) {place : Place}
    (hlink : ∀ target, files.root.at? ((files.followNamesLeniently followLink place names).1.location ++ [name]) ≠
      some (.link target)) :
    (files.followNamesLeniently followLink place (names ++ [name])).1.location =
      (files.followNamesLeniently followLink place names).1.location ++ [name] := by
  induction names generalizing place with
  | nil =>
    obtain ⟨hidle, hparent, -⟩ := Path.isEntryName_iff.mp hname
    have hentry : ∀ target, files.root.at? (place.child name).location ≠ some (.link target) := hlink
    rw [List.nil_append, followNamesLeniently_entry hidle hparent hentry]
    rfl
  | cons other names ih =>
    have hother := hnames other List.mem_cons_self
    rw [List.cons_append]
    rcases files.lenientStep_cases place other with hidle | rfl | ⟨-, hparent, ⟨target, hfound⟩ | hentry⟩
    · rw [hother] at hidle
      exact absurd hidle Bool.false_ne_true
    · rw [followNamesLeniently_parent] at hlink ⊢
      rw [followNamesLeniently_parent]
      exact ih (List.forall_mem_cons.mp hnames).2 hlink
    · rw [followNamesLeniently_link hother hparent hfound] at hlink ⊢
      rw [followNamesLeniently_link hother hparent hfound]
      split at hlink
      · next hfollowed =>
        rw [if_pos hfollowed, if_pos hfollowed]
        exact ih (List.forall_mem_cons.mp hnames).2 hlink
      · next hstuck =>
        rw [if_neg hstuck, if_neg hstuck]
        exact walkText_concat hname (List.forall_mem_cons.mp hnames).2 _
    · rw [followNamesLeniently_entry hother hparent hentry] at hlink ⊢
      rw [followNamesLeniently_entry hother hparent hentry]
      exact ih (List.forall_mem_cons.mp hnames).2 hlink

/-- A name that is not that of a link leads to the entry with this name, whether there is one or not. -/
theorem resolve_below {root : Path} (hroot : root.IsNormal) (hname : isEntryName name = true)
    (hlink : ∀ target, files.root.at? (files.resolve root ++ [name]) ≠ some (.link target)) :
    files.resolve (root.below [name]) = files.resolve root ++ [name] := by
  have habsolute : (root.below [name]).isAbsolute = root.isAbsolute := rfl
  unfold resolve realPath at hlink ⊢
  rw [habsolute, Path.below]
  rw [followLeniently] at hlink ⊢
  exact followNamesLeniently_concat hname (fun other hmem => (hroot.names other hmem).1) hlink

/-- The text ends in the name of an entry, behind directories or nothing, and the entry is no link. -/
structure EndsInOwnName (files : FileTree) (text directories name : Text) : Prop where
  parts : text = directories ++ name
  opened : ∀ c ∈ directories.getLast?, c = '/'
  entry : isEntryName name = true
  notLink : ∀ target, files.root.at? (files.resolve (Path.ofText directories) ++ [name]) ≠ some (.link target)

/-- The name of the file itself is tested, and so is the name that the text ends in if it is the same. -/
theorem EndsInOwnName.isGeneratedFileName_eq (h : files.EndsInOwnName text directories name) (config : Config) :
    isGeneratedFileName config (some (Path.ofLocation (files.resolve (Path.ofText text))).toText) =
      isGeneratedFileName config (some text) := by
  have hne := Path.ne_nil_of_entryName h.entry
  have hresolve := resolve_below (Path.isNormal_ofText directories) h.entry h.notLink
  rw [h.parts, Path.ofText_append_entryName h.opened h.entry, hresolve,
    Path.isGeneratedFileName_ofLocation config _ hne, isGeneratedFileName_append h.opened hne]

end FileTree

end SourceOrigin
