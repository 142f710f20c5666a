import SourceOrigin.FileTree.Path

/-! The normal form of paths. Every text stands for a path in normal form (`isNormal_ofText`); the text of such a path
stands for the path itself (`IsNormal.ofText_toText`), and it is what is left of the first text without slashes that are
doubled and single points. -/
namespace SourceOrigin

theorem Text.splitOn_eq (separator : Char) (text : Text) : splitOn separator text = List.splitOn separator text := by
  induction text with
  | nil => exact (List.splitOn_nil separator).symm
  | cons c rest ih =>
    rw [List.splitOn_cons_eq_if_modifyHead, ← ih, splitOn, List.foldr_cons, ← splitOn]
    by_cases hc : c = separator
    · simp only [hc, if_true, BEq.rfl]
    · rw [if_neg hc, if_neg (by simpa using hc)]
      cases hrest : splitOn separator rest with
      | nil => exact absurd (ih.symm.trans hrest) (List.splitOn_ne_nil separator rest)
      | cons first others => rfl

private theorem Text.splitOn_cons_self (separator : Char) (text : Text) :
    splitOn separator (separator :: text) = [] :: splitOn separator text := by
  rw [splitOn, List.foldr_cons, if_pos rfl, ← splitOn]

private theorem Text.splitOn_ne_nil (separator : Char) (text : Text) : splitOn separator text ≠ [] := by
  rw [splitOn_eq]
  exact List.splitOn_ne_nil separator text

private theorem Text.not_mem_of_mem_splitOn {separator : Char} {text piece : Text} (h : piece ∈ splitOn separator text) :
    separator ∉ piece := by
  induction text generalizing piece with
  | nil =>
    obtain rfl : piece = [] := by simpa [splitOn] using h
    exact List.not_mem_nil
  | cons c rest ih =>
    rw [splitOn_eq, List.splitOn_cons_eq_if_modifyHead, ← splitOn_eq] at h
    split at h
    · rcases List.mem_cons.mp h with rfl | h
      · exact List.not_mem_nil
      · exact ih h
    · next hc =>
      cases hsplit : splitOn separator rest with
      | nil => exact absurd hsplit (splitOn_ne_nil separator rest)
      | cons first others =>
        rw [hsplit, List.modifyHead_cons] at h
        rcases List.mem_cons.mp h with rfl | h
        · have hfirst := ih (hsplit ▸ List.mem_cons_self)
          simp only [List.mem_cons, not_or]
          exact ⟨fun heq => hc (by simp [heq]), hfirst⟩
        · exact ih (hsplit ▸ List.mem_cons_of_mem first h)

namespace Path

def isIdle (name : Text) : Bool := name = [] || name = ['.']

theorem namesIn_eq (text : Text) : namesIn text = (Text.splitOn '/' text).filter (!isIdle ·) := by
  refine List.filter_congr fun name _ => ?_
  rw [Bool.eq_iff_iff]
  simp [isIdle]

/-- A root that a path can have, and names between slashes that are not idle. -/
structure IsNormal (path : Path) : Prop where
  root : path.root = [] ∨ path.root = ['/'] ∨ path.root = ['/', '/']
  names : ∀ name ∈ path.names, isIdle name = false ∧ '/' ∉ name

private theorem namesIn_cons_slash (text : Text) : namesIn ('/' :: text) = namesIn text := by
  rw [namesIn_eq, Text.splitOn_cons_self, List.filter_cons_of_neg (by simp [isIdle]), ← namesIn_eq]

/-- A text begins with a root that a path can have, if no slash follows. -/
theorem ofText_append {root rest : Text} (hroot : root = [] ∨ root = ['/'] ∨ root = ['/', '/'])
    (hrest : rest.head? ≠ some '/') : ofText (root ++ rest) = ⟨root, namesIn rest⟩ := by
  have hnames : namesIn (root ++ rest) = namesIn rest := by
    rcases hroot with rfl | rfl | rfl
    all_goals simp only [List.nil_append, List.cons_append, namesIn_cons_slash]
  unfold ofText
  rw [hnames]
  cases rest with
  | nil => rcases hroot with rfl | rfl | rfl <;> rfl
  | cons c rest =>
    have hc : c ≠ '/' := by simpa using hrest
    rcases hroot with rfl | rfl | rfl
    all_goals
      split
      all_goals grind

private theorem exists_root (text : Text) : ∃ root rest, text = root ++ rest ∧ ofText text = ⟨root, namesIn rest⟩ ∧
    (root = [] ∧ rest.head? ≠ some '/' ∨ root = ['/'] ∨ root = ['/', '/']) := by
  by_cases hnone : text.head? = some '/'
  · obtain ⟨one, rfl⟩ := List.head?_eq_some_iff.mp hnone
    by_cases hone : one.head? = some '/'
    · obtain ⟨two, rfl⟩ := List.head?_eq_some_iff.mp hone
      by_cases htwo : two.head? = some '/'
      · obtain ⟨three, rfl⟩ := List.head?_eq_some_iff.mp htwo
        exact ⟨['/'], _, rfl, by rw [← namesIn_cons_slash]; rfl, .inr (.inl rfl)⟩
      · exact ⟨['/', '/'], two, rfl, ofText_append (.inr (.inr rfl)) htwo, .inr (.inr rfl)⟩
    · exact ⟨['/'], one, rfl, ofText_append (.inr (.inl rfl)) hone, .inr (.inl rfl)⟩
  · exact ⟨[], text, rfl, ofText_append (.inl rfl) hnone, .inl ⟨rfl, hnone⟩⟩

theorem isNormal_ofText (text : Text) : (ofText text).IsNormal := by
  obtain ⟨root, rest, -, hpath, hroot⟩ := exists_root text
  rw [hpath]
  refine ⟨hroot.imp And.left id, fun name hmem => ?_⟩
  rw [namesIn_eq, List.mem_filter, Bool.not_eq_true'] at hmem
  exact ⟨hmem.2, Text.not_mem_of_mem_splitOn hmem.1⟩

namespace IsNormal
variable {path : Path}

/-- The text of a path in normal form is cut at its slashes into its names. -/
theorem splitOn_joinNames (h : path.IsNormal) (hnames : path.names ≠ []) :
    Text.splitOn '/' (joinNames path.names) = path.names := by
  rw [Text.splitOn_eq, joinNames]
  exact List.splitOn_intercalate '/' (fun name hmem => (h.names name hmem).2) hnames

/-- The first name begins with its own first character. -/
theorem head?_joinNames (h : path.IsNormal) : (joinNames path.names).head? ≠ some '/' := by
  cases hnames : path.names with
  | nil => simp [joinNames]
  | cons name rest =>
    obtain ⟨hidle, hslash⟩ := h.names name (hnames ▸ List.mem_cons_self)
    cases name with
    | nil => simp [isIdle] at hidle
    | cons c name =>
      have hhead : (joinNames ((c :: name) :: rest)).head? = some c := by
        cases rest with
        | nil => simp [joinNames]
        | cons next rest => rw [joinNames, List.intercalate_cons_cons]; rfl
      rw [hhead]
      rintro ⟨⟩
      exact hslash List.mem_cons_self

theorem namesIn_joinNames (h : path.IsNormal) : namesIn (joinNames path.names) = path.names := by
  by_cases hnames : path.names = []
  · rw [hnames]
    rfl
  · rw [namesIn_eq, h.splitOn_joinNames hnames, List.filter_eq_self]
    exact fun name hmem => by rw [(h.names name hmem).1]; rfl

/-- The text of a path in normal form stands for this path. -/
theorem ofText_toText (h : path.IsNormal) : ofText path.toText = path := by
  unfold toText
  split
  · next hempty =>
    obtain ⟨root, names⟩ := path
    simp only [Bool.and_eq_true, List.isEmpty_iff] at hempty
    obtain ⟨rfl, rfl⟩ := hempty
    rfl
  · rw [ofText_append h.root h.head?_joinNames, h.namesIn_joinNames]

theorem joinNames_ne_nil (h : path.IsNormal) (hnames : path.names ≠ []) : joinNames path.names ≠ [] := by
  intro hjoin
  have hsplit := h.splitOn_joinNames hnames
  rw [hjoin] at hsplit
  have hidle := (h.names [] (hsplit ▸ List.mem_singleton_self [])).1
  simp [isIdle] at hidle

theorem toText_ne_nil (h : path.IsNormal) : path.toText ≠ [] := by
  unfold toText
  split
  · simp
  · next hne =>
    intro hempty
    obtain ⟨hroot, hjoin⟩ := List.append_eq_nil_iff.mp hempty
    exact h.joinNames_ne_nil (fun hnames => hne (by simp [hroot, hnames])) hjoin

/-- The text of a path in normal form begins with a slash if the path is absolute. -/
theorem head?_toText (h : path.IsNormal) : path.toText.head? = some '/' ↔ path.isAbsolute = true := by
  have hhead := h.head?_joinNames
  unfold toText isAbsolute
  rcases h.root with hroot | hroot | hroot
  all_goals simp only [hroot]
  · split
    · simp
    · simpa using hhead
  · simp
  · simp

end IsNormal

theorem head?_iff_isAbsolute (text : Text) : text.head? = some '/' ↔ (ofText text).isAbsolute = true := by
  obtain ⟨root, rest, rfl, hpath, ⟨rfl, hrest⟩ | rfl | rfl⟩ := exists_root text
  all_goals simp_all [isAbsolute]

/-! ### What the normal form leaves of a text -/

theorem joinNames_cons {name : Text} {rest : List Text} (hrest : rest ≠ []) :
    joinNames (name :: rest) = name ++ '/' :: joinNames rest := by
  obtain ⟨next, rest, rfl⟩ := List.exists_cons_of_ne_nil hrest
  rw [joinNames, List.intercalate_cons_cons, List.append_assoc, List.singleton_append, ← joinNames]

private theorem joinNames_splitOn (text : Text) : joinNames (Text.splitOn '/' text) = text := by
  rw [Text.splitOn_eq, joinNames, List.intercalate_splitOn]

private theorem joinNames_sublist {names others : List Text} (h : names.Sublist others) :
    (joinNames names).Sublist (joinNames others) := by
  induction h with
  | slnil => exact .refl _
  | @cons names others name _ ih =>
    by_cases hothers : others = []
    · subst hothers
      exact ih.trans (List.nil_sublist _)
    · rw [joinNames_cons hothers]
      exact (ih.cons '/').trans (List.sublist_append_right name _)
  | @cons_cons names others name h ih =>
    by_cases hothers : others = []
    · subst hothers
      obtain rfl := List.eq_nil_of_sublist_nil h
      exact .refl _
    · rw [joinNames_cons hothers]
      by_cases hnames : names = []
      · subst hnames
        have hsingle : joinNames [name] = name := by simp [joinNames]
        rw [hsingle]
        exact List.sublist_append_left name _
      · rw [joinNames_cons hnames]
        exact (List.Sublist.refl name).append (ih.cons_cons '/')

private theorem head?_of_namesIn_eq_nil {text : Text} (hne : text ≠ []) (hrelative : text.head? ≠ some '/')
    (h : namesIn text = []) : ∃ rest, text = '.' :: rest := by
  obtain ⟨c, rest, rfl⟩ := List.exists_cons_of_ne_nil hne
  have hc : c ≠ '/' := by simpa using hrelative
  obtain ⟨first, others, hrest⟩ := List.exists_cons_of_ne_nil (Text.splitOn_ne_nil '/' rest)
  have hsplit : Text.splitOn '/' (c :: rest) = (c :: first) :: others := by
    rw [Text.splitOn_eq, List.splitOn_cons_eq_if_modifyHead, ← Text.splitOn_eq, hrest, if_neg (by simpa using hc)]
    rfl
  rw [namesIn_eq, hsplit] at h
  have hidle := List.filter_eq_nil_iff.mp h (c :: first) List.mem_cons_self
  obtain ⟨rfl, rfl⟩ : c = '.' ∧ first = [] := by simpa [isIdle] using hidle
  exact ⟨rest, rfl⟩

/-- The normal form only leaves characters out. -/
theorem toText_ofText_sublist {text : Text} (hne : text ≠ []) : ((ofText text).toText).Sublist text := by
  obtain ⟨root, rest, rfl, hpath, hroot⟩ := exists_root text
  rw [hpath, toText]
  dsimp only
  split
  · next hempty =>
    simp only [Bool.and_eq_true, List.isEmpty_iff] at hempty
    obtain ⟨rfl, hnames⟩ := hempty
    have hrelative : rest.head? ≠ some '/' := by simpa using hroot
    obtain ⟨more, rfl⟩ := head?_of_namesIn_eq_nil hne hrelative hnames
    exact (List.nil_sublist more).cons_cons '.'
  · have hjoin := joinNames_sublist (List.filter_sublist (p := (!isIdle ·)) (l := Text.splitOn '/' rest))
    rw [← namesIn_eq, joinNames_splitOn] at hjoin
    exact (List.Sublist.refl root).append hjoin

/-- Idle names were left out, or others put in their places. -/
inductive Slims : List Text → List Text → Prop where
  | nil : Slims [] []
  | keep (name : Text) {names slim : List Text} : Slims names slim → Slims (name :: names) (name :: slim)
  | drop {name : Text} {names slim : List Text} : isIdle name = true → Slims names slim → Slims (name :: names) slim
  | change {name other : Text} {names slim : List Text} : isIdle name = true → isIdle other = true →
      Slims names slim → Slims (name :: names) (other :: slim)

namespace Slims

theorem filter (names : List Text) : Slims names (names.filter (!isIdle ·)) := by
  induction names with
  | nil => exact .nil
  | cons name rest ih =>
    cases hidle : isIdle name with
    | true => simpa [hidle] using ih.drop hidle
    | false => simpa [hidle] using ih.keep name

theorem append_left (front : List Text) {names slim : List Text} (h : Slims names slim) :
    Slims (front ++ names) (front ++ slim) := by
  induction front with
  | nil => exact h
  | cons name front ih => exact ih.keep name

/-- A single idle name can stand in for several. -/
theorem single {names : List Text} (hne : names ≠ []) (hidle : names.filter (!isIdle ·) = []) {other : Text}
    (hother : isIdle other = true) : Slims names [other] := by
  obtain ⟨name, rest, rfl⟩ := List.exists_cons_of_ne_nil hne
  have hall := List.filter_eq_nil_iff.mp hidle
  have hrest := filter rest
  rw [List.filter_eq_nil_iff.mpr fun name hmem => hall name (List.mem_cons_of_mem _ hmem)] at hrest
  exact .change (by simpa using hall name List.mem_cons_self) hother hrest

private theorem root_append {root rest slim : Text} (hroot : root = [] ∨ root = ['/'] ∨ root = ['/', '/'])
    (h : Slims (Text.splitOn '/' rest) (Text.splitOn '/' slim)) :
    Slims (Text.splitOn '/' (root ++ rest)) (Text.splitOn '/' (root ++ slim)) := by
  rcases hroot with rfl | rfl | rfl
  · exact h
  · simpa only [List.singleton_append, Text.splitOn_cons_self] using h.keep []
  · simpa only [List.cons_append, List.nil_append, Text.splitOn_cons_self] using (h.keep []).keep []

end Slims

/-- Of the pieces between the slashes of a text only idle names are missing in its normal form. -/
theorem slims_splitOn {text : Text} (hne : text ≠ []) :
    Slims (Text.splitOn '/' text) (Text.splitOn '/' (ofText text).toText) := by
  have hnormal := isNormal_ofText text
  obtain ⟨root, rest, rfl, hpath, hroot⟩ := exists_root text
  rw [hpath] at hnormal ⊢
  have hpieces := Text.splitOn_ne_nil '/' rest
  by_cases hnames : namesIn rest = []
  · have hidle : (Text.splitOn '/' rest).filter (!isIdle ·) = [] := by rwa [← namesIn_eq]
    by_cases hempty : root = []
    · subst hempty
      have hslims : Slims (Text.splitOn '/' rest) [['.']] := Slims.single hpieces hidle rfl
      simpa [toText, hnames, Text.splitOn] using hslims
    · have hslims : Slims (Text.splitOn '/' rest) (Text.splitOn '/' []) := Slims.single hpieces hidle rfl
      simpa [toText, hnames, hempty, joinNames] using hslims.root_append hnormal.root
  · have hslims : Slims (Text.splitOn '/' rest) (Text.splitOn '/' (joinNames (namesIn rest))) := by
      rw [hnormal.splitOn_joinNames hnames, namesIn_eq]
      exact Slims.filter _
    simpa [toText, hnames] using hslims.root_append hnormal.root

end Path

end SourceOrigin
