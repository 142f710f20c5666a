import SourceOrigin.Proofs.FileTree.Walk
import SourceOrigin.Proofs.Text.Order

/-! Paths taken apart and put together: their order, which is that of their components, the extension of a file name, and
the path of an entry below a directory with the text in which a walk writes it. -/
namespace SourceOrigin.Path
variable {root : Path} {location : Location} {name ext text : Text}

/-! ### Order -/

private theorem componentsLe_iff (a b : List Text) : componentsLe a b = true ↔ a ≤ b := by
  induction a generalizing b with
  | nil => exact iff_of_true rfl (not_lt.mp (List.not_lt_nil b))
  | cons first a ih =>
    cases b with
    | nil => exact iff_of_false Bool.false_ne_true (by simp)
    | cons second b =>
      rw [componentsLe, le_iff_lt_or_eq, List.cons_lt_cons_iff]
      by_cases hsame : first = second
      · simp [hsame, ih b, le_iff_lt_or_eq]
      · simp [hsame, Text.le_iff, le_iff_lt_or_eq]

/-- Paths with different components are sorted strictly. -/
theorem sortBy_pairwise_lt {paths : List Path} (h : (paths.map components).Nodup) :
    (sortBy le paths).Pairwise fun a b => a.components < b.components := by
  have hsorted := sortBy_pairwise_key components (fun a b => componentsLe_iff a.components b.components) paths
  have hdistinct := (((sortBy_perm le paths).map components).nodup_iff.mpr h)
  exact (hsorted.and (List.pairwise_map.mp hdistinct)).imp fun hab => lt_of_le_of_ne hab.1 hab.2

/-! ### The extension -/

/-- The extension of a file name begins at the last point, unless there is none but at the front of the name. -/
inductive IsExtension : Text → Text → Prop where
  | lastPoint {stem letters : Text} : (∃ c ∈ stem, c ≠ '.') → '.' ∉ letters →
      IsExtension (stem ++ '.' :: letters) ('.' :: letters)
  | none {points letters : Text} : (∀ c ∈ points, c = '.') → '.' ∉ letters → IsExtension (points ++ letters) []

private theorem exists_lastPoint (name : Text) :
    '.' ∉ name ∨ ∃ stem letters, name = stem ++ '.' :: letters ∧ '.' ∉ letters := by
  by_cases hpoint : '.' ∈ name
  · obtain ⟨behind, before, hreverse, hbehind⟩ := List.eq_append_cons_of_mem (List.mem_reverse.mpr hpoint)
    refine .inr ⟨before.reverse, behind.reverse, ?_, by simpa using hbehind⟩
    rw [← List.reverse_reverse name, hreverse, List.reverse_append, List.reverse_cons, List.append_assoc,
      List.singleton_append]
  · exact .inl hpoint

private theorem takeWhile_letters {letters : Text} (h : '.' ∉ letters) (rest : Text) :
    (letters.reverse ++ rest).takeWhile (· != '.') = letters.reverse ++ rest.takeWhile (· != '.') := by
  refine List.takeWhile_append_of_pos fun c hc => bne_iff_ne.mpr ?_
  rintro rfl
  exact h (List.mem_reverse.mp hc)

private theorem extension_of_not_mem (h : '.' ∉ name) : extension name = [] := by
  have hall := takeWhile_letters h []
  rw [List.takeWhile_nil, List.append_nil] at hall
  simp only [extension, hall, List.drop_length]

private theorem extension_append {letters : Text} (stem : Text) (h : '.' ∉ letters) :
    extension (stem ++ '.' :: letters) = if stem.all (· = '.') then [] else '.' :: letters := by
  have hreverse : (stem ++ '.' :: letters).reverse = letters.reverse ++ '.' :: stem.reverse := by simp
  have hbehind := takeWhile_letters h ('.' :: stem.reverse)
  rw [List.takeWhile_cons_of_neg (by simp), List.append_nil] at hbehind
  simp only [extension, hreverse, hbehind, List.drop_left, List.all_reverse, List.reverse_reverse]

theorem isExtension_iff : IsExtension name ext ↔ extension name = ext := by
  constructor
  · rintro (⟨⟨c, hc, hne⟩, hletters⟩ | ⟨hpoints, hletters⟩)
    · rw [extension_append _ hletters, if_neg]
      rw [List.all_eq_true]
      exact fun hall => hne (by simpa using hall c hc)
    · next points letters =>
      rcases List.eq_nil_or_concat points with rfl | ⟨front, last, rfl⟩
      · exact extension_of_not_mem hletters
      · obtain rfl : last = '.' := hpoints last (by simp)
        rw [List.concat_eq_append, List.append_assoc, List.singleton_append, extension_append _ hletters, if_pos]
        rw [List.all_eq_true]
        exact fun c hc => by simpa using hpoints c (by simp [hc])
  · rintro rfl
    rcases exists_lastPoint name with hnone | ⟨stem, letters, rfl, hletters⟩
    · rw [extension_of_not_mem hnone]
      have hletters := IsExtension.none (fun c hc => absurd hc List.not_mem_nil) hnone
      rwa [List.nil_append] at hletters
    · rw [extension_append stem hletters]
      split
      · next hall =>
        have hpoints : ∀ c ∈ stem ++ ['.'], c = '.' := by
          simpa [or_imp, forall_and] using hall
        have hnone := IsExtension.none hpoints hletters
        rwa [List.append_assoc] at hnone
      · next hall =>
        exact .lastPoint (by simpa using hall) hletters

/-! ### Paths below a directory -/

def below (root : Path) (location : Location) : Path := { root with names := root.names ++ location }

/-- The text in which a walk over a directory writes the path of what it finds. -/
def shown (root : Path) (location : Location) : Text := location.foldl joinText root.toText

theorem components_below (root : Path) (location : Location) :
    (root.below location).components = root.components ++ location := by
  cases h : root.isAbsolute with
  | true => simp_all [components, below, isAbsolute]
  | false => simp_all [components, below, isAbsolute]

theorem isEntryName_iff : isEntryName name = true ↔ isIdle name = false ∧ name ≠ ['.', '.'] ∧ '/' ∉ name := by
  simp [isEntryName, and_assoc]

theorem isNormal_of_entryNames (h : ∀ name ∈ location, isEntryName name = true) : IsNormal ⟨[], location⟩ := by
  refine ⟨.inl rfl, fun name hmem => ?_⟩
  obtain ⟨hidle, -, hslash⟩ := isEntryName_iff.mp (h name hmem)
  exact ⟨hidle, hslash⟩

private theorem foldl_joinText (h : ∀ name ∈ location, isEntryName name = true) (hne : location ≠ []) (text : Text) :
    location.foldl joinText text =
      if text.getLast? = some '/' then text ++ joinNames location else text ++ '/' :: joinNames location := by
  induction location generalizing text with
  | nil => exact absurd rfl hne
  | cons name rest ih =>
    rw [List.foldl_cons]
    by_cases hrest : rest = []
    · subst hrest
      simp [joinText, joinNames]
    · obtain ⟨hname, hnames⟩ := List.forall_mem_cons.mp h
      obtain ⟨hidle, -, hslash⟩ := isEntryName_iff.mp hname
      have hempty : name ≠ [] := by
        rintro rfl
        simp [isIdle] at hidle
      have hlast : (joinText text name).getLast? ≠ some '/' := by
        have hend : (joinText text name).getLast? = name.getLast? := by
          unfold joinText
          split
          · exact List.getLast?_append_of_ne_nil text hempty
          · rw [List.append_cons, List.getLast?_append_of_ne_nil _ hempty]
        rw [hend]
        exact fun hmem => hslash (List.mem_of_getLast? hmem)
      rw [ih hnames hrest, if_neg hlast, joinNames_cons hrest, joinText]
      split <;> simp

/-- The names in the text are those of the directory and those of the location, but for an empty one if the text of the
directory ends with a slash. -/
theorem splitOn_shown (root : Path) (h : ∀ name ∈ location, isEntryName name = true) (hne : location ≠ []) : ∃ front idle,
    (idle = [] ∨ idle = [[]]) ∧ Text.splitOn '/' root.toText = front ++ idle ∧
      Text.splitOn '/' (root.shown location) = front ++ location := by
  have hlocation := (isNormal_of_entryNames h).splitOn_joinNames hne
  rw [shown, foldl_joinText h hne]
  simp only [Text.splitOn_eq] at hlocation ⊢
  split
  · next hslash =>
    obtain ⟨front, hfront⟩ := List.getLast?_eq_some_iff.mp hslash
    refine ⟨List.splitOn '/' front, [[]], .inr rfl, ?_, ?_⟩
    · rw [hfront, List.splitOn_append_cons_self, List.splitOn_nil]
    · rw [hfront, List.append_assoc, List.singleton_append, List.splitOn_append_cons_self, hlocation]
  · exact ⟨_, [], .inl rfl, (List.append_nil _).symm, by rw [List.splitOn_append_cons_self, hlocation]⟩

theorem prefix_shown (root : Path) (location : Location) : root.toText <+: root.shown location := by
  unfold shown
  generalize root.toText = text
  induction location generalizing text with
  | nil => exact List.prefix_rfl
  | cons name rest ih =>
    refine List.IsPrefix.trans ?_ (ih (joinText text name))
    unfold joinText
    split <;> exact List.prefix_append _ _

private theorem exists_shown (hroot : root.IsNormal) (h : ∀ name ∈ location, isEntryName name = true)
    (hne : location ≠ []) :
    ∃ rest, root.shown location = root.root ++ rest ∧ rest.head? ≠ some '/' := by
  obtain ⟨more, hmore⟩ := root.prefix_shown location
  by_cases hnames : root.names = []
  · by_cases hempty : root.root = []
    · refine ⟨'.' :: more, ?_, by simp⟩
      simp [← hmore, toText, hnames, hempty]
    · have htext : root.toText = root.root := by simp [toText, hnames, hempty, joinNames]
      have hslash : root.root.getLast? = some '/' := by
        rcases hroot.root with h | h | h
        · exact absurd h hempty
        all_goals rw [h]; rfl
      refine ⟨joinNames location, ?_, (isNormal_of_entryNames h).head?_joinNames⟩
      rw [shown, foldl_joinText h hne, htext, if_pos hslash]
  · have htext : root.toText = root.root ++ joinNames root.names := by simp [toText, hnames]
    refine ⟨joinNames root.names ++ more, ?_, ?_⟩
    · rw [← hmore, htext, List.append_assoc]
    · rw [List.head?_append_of_ne_nil _ (hroot.joinNames_ne_nil hnames)]
      exact hroot.head?_joinNames

/-- The text of a path that a walk finds stands for the directory's path with the names behind it. -/
theorem ofText_shown (hroot : root.IsNormal) (h : ∀ name ∈ location, isEntryName name = true) (hne : location ≠ []) :
    ofText (root.shown location) = root.below location := by
  have hnames : namesIn (root.shown location) = root.names ++ location := by
    obtain ⟨front, idle, hidle, htext, hshown⟩ := splitOn_shown root h hne
    have hlocation : location.filter (!isIdle ·) = location :=
      List.filter_eq_self.mpr fun name hmem => by rw [(isEntryName_iff.mp (h name hmem)).1]; rfl
    have hroot : root.names = namesIn root.toText := congrArg names hroot.ofText_toText.symm
    rw [hroot, namesIn_eq, namesIn_eq, htext, hshown, List.filter_append, List.filter_append, hlocation]
    rcases hidle with rfl | rfl
    all_goals simp [isIdle]
  obtain ⟨rest, hrest, hhead⟩ := exists_shown hroot h hne
  have hpath := ofText_append hroot.root hhead
  rw [← hrest] at hpath
  rw [below, ← hnames, hpath]
  exact congrArg (Path.mk root.root) (congrArg names hpath).symm

end SourceOrigin.Path
