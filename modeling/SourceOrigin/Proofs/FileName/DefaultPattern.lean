import SourceOrigin.Classification
import SourceOrigin.Proofs.Outcome
import SourceOrigin.Proofs.Pattern.Occurrence
import SourceOrigin.Proofs.Text.Letter
import SourceOrigin.Proofs.Text.Line

/-! The file names that the default pattern marks. A search for a regular expression comes here to a test of the last
characters of the base name, and the base name to the part of the path behind its last separator. -/
namespace SourceOrigin

/-- The path ends in the name: before it there is nothing or a separator, and none is in it. -/
structure EndsInName (path directories name : Text) : Prop where
  parts : path = directories ++ name
  closed : ∀ c ∈ directories.getLast?, c = '/' ∨ c = '\\'
  plain : ∀ c ∈ name, c ≠ '/' ∧ c ≠ '\\'

theorem EndsInName.baseName_eq {path directories name : Text} (h : EndsInName path directories name) :
    baseName path = name := by
  have hspan : (name.reverse ++ directories.reverse).takeWhile (fun c => !(c = '/' || c = '\\')) = name.reverse :=
    (Text.span_append (by simpa using h.plain) (by simpa [← or_iff_not_imp_left] using h.closed)).1
  rw [baseName, Text.afterLast, h.parts, List.reverse_append, hspan, List.reverse_reverse]

theorem exists_endsInName (path : Text) : ∃ directories, EndsInName path directories (baseName path) := by
  let separates (c : Char) : Bool := c = '/' || c = '\\'
  refine ⟨(path.reverse.dropWhile (!separates ·)).reverse, ?_, fun c hc => ?_, fun c hc => ?_⟩
  · have hparts := congrArg List.reverse (List.takeWhile_append_dropWhile (p := (!separates ·)) (l := path.reverse))
    rw [List.reverse_append, List.reverse_reverse] at hparts
    exact hparts.symm
  · rw [List.getLast?_reverse] at hc
    simpa [separates, ← or_iff_not_imp_left] using Text.head?_dropWhile path.reverse c hc
  · have hplain := List.mem_takeWhile_imp (List.mem_reverse.mp hc)
    simpa using hplain

/-- What a name may end with to be marked, character by character: letters in either case, and the other forms of s and i. -/
def designerEnding : List (List Char) :=
  [['.'], ['d', 'D'], ['e', 'E'], ['s', 'S', 'ſ'], ['i', 'I', 'İ', 'ı'], ['g', 'G'], ['n', 'N'], ['e', 'E'], ['r', 'R'],
    ['.'], ['c', 'C'], ['s', 'S', 'ſ']]

def IsDesignerName (name : Text) : Prop :=
  ∃ front ending behind, name = front ++ (ending ++ behind) ∧
    List.Forall₂ (fun c same => c ∈ same) ending designerEnding ∧ (behind = [] ∨ behind = ['\n'])

private theorem IsDesignerName.ne_nil {name : Text} (h : IsDesignerName name) : name ≠ [] := by
  obtain ⟨front, ending, behind, rfl, hending, -⟩ := h
  have hlength := hending.length_eq
  intro hnil
  simp only [List.append_eq_nil_iff] at hnil
  rw [hnil.2.1] at hlength
  exact absurd hlength (by decide)

private theorem forall₂_sameLetter_iff {word part : Text} {ending : List (List Char)}
    (h : List.Forall₂ (fun c same => ∀ d, Text.sameLetter c d = true ↔ d ∈ same) word ending) :
    List.Forall₂ (Text.sameLetter · ·) word part ↔ List.Forall₂ (fun c same => c ∈ same) part ending := by
  induction h generalizing part with
  | nil => simp [List.forall₂_nil_left_iff, List.forall₂_nil_right_iff]
  | cons hletter _ ih =>
    cases part with
    | nil => simp
    | cons d part => rw [List.forall₂_cons, List.forall₂_cons, hletter, ih]

def designerWord : Text := ['.', 'd', 'e', 's', 'i', 'g', 'n', 'e', 'r', '.', 'c', 's']

private theorem forall₂_designer {part : Text} : List.Forall₂ (Text.sameLetter · ·) designerWord part ↔
    List.Forall₂ (fun c same => c ∈ same) part designerEnding := by
  apply forall₂_sameLetter_iff
  rw [List.forall₂_iff_zip]
  refine ⟨by decide, ?_⟩
  have hall : (designerWord.zip designerEnding).all (fun pair =>
      (Text.variants pair.1).all pair.2.contains && pair.2.all (Text.sameLetter pair.1)) = true := by decide +kernel
  intro c same hmem d
  exact Text.sameLetter_iff_mem (List.all_eq_true.mp hall (c, same) hmem)

theorem Pattern.compile_of_parse (engine : Pattern.Engine) {written : Text} {pattern : Pattern}
    (hplain : Pattern.isPlain written = true) (hparse : Pattern.parse written = .ok pattern) :
    Pattern.compile engine written = .ok pattern.occursIn := by
  rw [Pattern.compile, if_pos hplain, hparse]
  rfl

private theorem compile_default (engine : Pattern.Engine) :
    Pattern.compile engine "\\.designer\\.cs$".toList = .ok (Pattern.wordAtEnd designerWord).occursIn := by
  refine Pattern.compile_of_parse engine (by decide +kernel) (eq_ok_of_toOption ?_)
  decide +kernel

theorem isGeneratedFileName_of_ne_nil {path : Text} (h : path ≠ []) (config : Config) :
    isGeneratedFileName config (some path) = matchesSome config.engine (baseName path) config.fileNamePatterns := by
  cases path with
  | nil => exact absurd rfl h
  | cons c path => rfl

private theorem matchesSome_default (engine : Pattern.Engine) (name : Text) :
    ∃ sign, matchesSome engine name ({} : Config).fileNamePatterns = .ok sign ∧ (sign = true ↔ IsDesignerName name) := by
  refine ⟨(Pattern.wordAtEnd designerWord).occursIn name, ?_, ?_⟩
  · rw [matchesSome, compile_default]
    cases hoccurs : (Pattern.wordAtEnd designerWord).occursIn name <;> simp [hoccurs, matchesSome]
  · simp only [Pattern.occursIn_wordAtEnd, forall₂_designer, IsDesignerName]

/-- The default pattern marks the paths that end in a designer name. And under any configuration the directories before a
name do not count. -/
theorem isGeneratedFileName_default :
    (∀ path, ∃ sign, isGeneratedFileName {} (some path) = .ok sign ∧
      (sign = true ↔ ∃ directories name, EndsInName path directories name ∧ IsDesignerName name)) ∧
    ∀ config directories name, name ≠ [] → EndsInName (directories ++ name) directories name →
      isGeneratedFileName config (some (directories ++ name)) = isGeneratedFileName config (some name) := by
  constructor
  · intro path
    have hname : IsDesignerName (baseName path) ↔ ∃ directories name, EndsInName path directories name ∧ IsDesignerName name := by
      constructor
      · intro hmarked
        obtain ⟨directories, hends⟩ := exists_endsInName path
        exact ⟨directories, _, hends, hmarked⟩
      · rintro ⟨directories, name, hends, hmarked⟩
        exact hends.baseName_eq ▸ hmarked
    by_cases hpath : path = []
    · subst hpath
      refine ⟨false, rfl, ?_⟩
      rw [← hname]
      exact iff_of_false Bool.false_ne_true fun hmarked => hmarked.ne_nil rfl
    · rw [isGeneratedFileName_of_ne_nil hpath, ← hname]
      exact matchesSome_default _ (baseName path)
  · intro config directories name hne hends
    have hplain : EndsInName name [] name := ⟨rfl, by simp, hends.plain⟩
    rw [isGeneratedFileName_of_ne_nil (List.append_ne_nil_of_right_ne_nil directories hne), isGeneratedFileName_of_ne_nil hne,
      hends.baseName_eq, hplain.baseName_eq]

theorem isGeneratedFileName_default_dotless :
    let directories : Text := ['a', '.', 'd', 'e', 's', 'i', 'g', 'n', 'e', 'r', '.', 'c', 's', '\\', 'b', '/']
    let name : Text := ['x', '.', 'D', 'E', 'ſ', 'ı', 'g', 'n', 'e', 'r', '.', 'C', 'ſ', '\n']
    EndsInName (directories ++ name) directories name ∧ isGeneratedFileName {} (some name) = .ok true ∧
      isGeneratedFileName {} (some (directories ++ name)) = isGeneratedFileName {} (some name) := by
  intro directories name
  have hname : IsDesignerName name :=
    ⟨['x'], ['.', 'D', 'E', 'ſ', 'ı', 'g', 'n', 'e', 'r', '.', 'C', 'ſ'], ['\n'], rfl, by simp [designerEnding], .inr rfl⟩
  have hplain : ∀ c ∈ name, c ≠ '/' ∧ c ≠ '\\' := by simp [name]
  have hends : EndsInName (directories ++ name) directories name := ⟨rfl, by simp [directories], hplain⟩
  obtain ⟨sign, hsign, hmarked⟩ := isGeneratedFileName_default.1 name
  obtain rfl := hmarked.mpr ⟨[], name, ⟨rfl, by simp, hplain⟩, hname⟩
  exact ⟨hends, hsign, isGeneratedFileName_default.2 {} directories name hname.ne_nil hends⟩

end SourceOrigin
