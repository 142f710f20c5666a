import SourceOrigin.Text.LineBreak
import Mathlib.Data.List.TakeWhile

/-! The front of a text: what it starts with, its first line, and the break behind that; and the words of a line. -/
namespace SourceOrigin.Text

def Unbroken (text : Text) : Prop := ∀ c ∈ text, isBreak c = false

def Inline (text : Text) : Prop := ∀ c ∈ text, isInlineBlank c = true

def Solid (text : Text) : Prop := ∀ c ∈ text, isBlank c = false

/-- A word may end in front of the text. -/
def Apart (text : Text) : Prop := ∀ c ∈ text.head?, isBlank c = true

-- All characters could be tried one by one, so the instances name the search through the text.
instance (text : Text) : Decidable (Unbroken text) := List.decidableBAll _ text

instance (text : Text) : Decidable (Inline text) := List.decidableBAll _ text

instance (text : Text) : Decidable (Solid text) := List.decidableBAll _ text

instance (text : Text) : Decidable (Apart text) := Option.decidableForallMem text.head?

def unlines (lines : List Text) : Text := lines.flatMap (· ++ ['\n'])

@[simp] theorem unlines_nil : unlines [] = [] := rfl

@[simp] theorem unlines_cons (line : Text) (lines : List Text) :
    unlines (line :: lines) = line ++ '\n' :: unlines lines := by
  simp [unlines]

theorem inline_nil : Inline [] := by simp [Inline]

theorem isBlank_of_isInlineBlank {c : Char} (h : isInlineBlank c = true) : isBlank c = true := by
  simp only [isInlineBlank, Bool.and_eq_true] at h
  exact h.1

theorem isInlineBlank_of_isBreak {c : Char} (h : isBreak c = true) : isInlineBlank c = false := by
  simp [isInlineBlank, h]

theorem Inline.unbroken {text : Text} (h : Inline text) : Unbroken text := by
  intro c hc
  simpa [isInlineBlank] using (Bool.and_eq_true_iff.mp (h c hc)).2

theorem isBlank_of_isBreak {c : Char} (h : isBreak c = true) : isBlank c = true := by
  simp only [isBreak, Bool.or_eq_true, decide_eq_true_eq] at h
  rcases h with (((rfl | rfl) | rfl) | rfl) | rfl
  all_goals decide

theorem isBreak_of_not_isBlank {c : Char} (h : isBlank c = false) : isBreak c = false := by
  cases hbreak : isBreak c with
  | false => rfl
  | true => exact absurd (isBlank_of_isBreak hbreak) (by simp [h])

/-- What is looked for at the front of a text is found there already before a character that is none of it. -/
theorem startsWith_append {start rest : Text} (h : ∀ c ∈ rest.head?, c ∉ start) (front : Text) :
    startsWith start (front ++ rest) = startsWith start front := by
  induction start generalizing front with
  | nil => rfl
  | cons c start ih =>
    cases front with
    | nil =>
      cases rest with
      | nil => rfl
      | cons d rest =>
        have hne : ¬ c = d := fun heq => h d rfl (by simp [heq])
        simp [startsWith, List.isPrefixOf, hne]
    | cons d front =>
      have hrest : ∀ c ∈ rest.head?, c ∉ start := fun e he hmem => h e he (List.mem_cons_of_mem _ hmem)
      simp only [startsWith, List.cons_append, List.isPrefixOf]
      rw [show start.isPrefixOf (front ++ rest) = start.isPrefixOf front from ih hrest front]

/-- A run of characters ends where a text goes on with one that does not belong to it. -/
theorem span_append {p : Char → Bool} {front rest : Text} (hfront : ∀ c ∈ front, p c = true)
    (hrest : ∀ c ∈ rest.head?, p c = false) :
    (front ++ rest).takeWhile p = front ∧ (front ++ rest).dropWhile p = rest := by
  rw [List.takeWhile_append_of_pos hfront, List.dropWhile_append_of_pos hfront]
  cases rest with
  | nil => simp
  | cons c rest => simp [hrest c rfl]

theorem head?_dropWhile {p : Char → Bool} (text : Text) : ∀ c ∈ (text.dropWhile p).head?, p c = false := by
  intro c hc
  have hstop := List.head?_dropWhile_not p text
  rw [hc] at hstop
  simpa using hstop

/-- The first characters of a text that satisfy `p` end where a line feed ends the line. -/
theorem takeWhile_line {p : Char → Bool} (hp : p '\n' = false) (line rest : Text) :
    (line ++ '\n' :: rest).takeWhile p = line.takeWhile p := by
  induction line with
  | nil => simp [hp]
  | cons c line ih =>
    simp only [List.cons_append, List.takeWhile_cons]
    split
    · rw [ih]
    · rfl

theorem dropWhile_line {p : Char → Bool} (hp : p '\n' = false) (line rest : Text) :
    (line ++ '\n' :: rest).dropWhile p = line.dropWhile p ++ '\n' :: rest := by
  induction line with
  | nil => simp [hp]
  | cons c line ih =>
    simp only [List.cons_append, List.dropWhile_cons]
    split
    · rw [ih]
    · rfl

theorem lineAt_append_afterLine (text : Text) : lineAt text ++ afterLine text = text := List.takeWhile_append_dropWhile

theorem unbroken_lineAt (text : Text) : Unbroken (lineAt text) := by
  intro c hc
  simpa using List.mem_takeWhile_imp hc

theorem isBreak_of_mem_afterLine (text : Text) : ∀ c ∈ (afterLine text).head?, isBreak c = true := by
  intro c hc
  simpa using head?_dropWhile text c hc

/-- A line ends before a break and at the end of the text. -/
theorem line_append {line rest : Text} (h : Unbroken line) (hrest : ∀ c ∈ rest.head?, isBreak c = true) :
    lineAt (line ++ rest) = line ∧ afterLine (line ++ rest) = rest := by
  apply span_append
  · intro c hc
    simp [h c hc]
  · intro c hc
    simp [hrest c hc]

section
variable {line : Text} (h : Unbroken line) (rest : Text)
include h

theorem lineAt_line : lineAt (line ++ '\n' :: rest) = line :=
  (line_append h (by simp [isBreak])).1

theorem afterLine_line : afterLine (line ++ '\n' :: rest) = '\n' :: rest :=
  (line_append h (by simp [isBreak])).2

end

theorem breakAt_of_head {text : Text} (h : ∀ c ∈ text.head?, isBreak c = false) : breakAt text = [] := by
  unfold breakAt
  split
  · exact absurd (h '\r' rfl) (by decide)
  · next c _ _ => simp [h c rfl]
  · rfl

private theorem breakAt_single {c : Char} {rest : Text} (hc : isBreak c = true)
    (h : ¬ (c = '\r' ∧ rest.head? = some '\n')) : breakAt (c :: rest) = [c] := by
  unfold breakAt
  split
  · simp_all
  · simp_all
  · simp_all

/-- The line break at the front is the same before a text that begins alike or is at its end. -/
theorem breakAt_append {text after : Text} (h : after = [] ∨ after.head? = (afterBreak text).head?) :
    breakAt (breakAt text ++ after) = breakAt text ∧ afterBreak (breakAt text ++ after) = after := by
  suffices hbreak : breakAt (breakAt text ++ after) = breakAt text by
    refine ⟨hbreak, ?_⟩
    rw [afterBreak, hbreak, List.drop_left]
  by_cases hbreak : ∀ c ∈ text.head?, isBreak c = false
  · have hnone := breakAt_of_head hbreak
    rw [afterBreak, hnone, List.length_nil, List.drop_zero] at h
    rw [hnone]
    apply breakAt_of_head
    intro c hc
    rcases h with rfl | hhead
    · simp at hc
    · exact hbreak c (by simpa [← hhead] using hc)
  · cases text with
    | nil => simp at hbreak
    | cons c rest =>
      have hc : isBreak c = true := by simpa using hbreak
      by_cases hfeed : c = '\r' ∧ rest.head? = some '\n'
      · obtain ⟨rfl, hrest⟩ := hfeed
        obtain ⟨rest, rfl⟩ := List.head?_eq_some_iff.mp hrest
        rfl
      · rw [afterBreak, breakAt_single hc hfeed] at h
        rw [breakAt_single hc hfeed, List.singleton_append]
        refine breakAt_single hc ?_
        rcases h with rfl | hhead
        · simp
        · rwa [hhead]

theorem breakAt_feed (rest : Text) : breakAt ('\n' :: rest) = ['\n'] := by
  simp [breakAt, isBreak]

theorem afterBreak_feed (rest : Text) : afterBreak ('\n' :: rest) = rest := by
  rw [afterBreak, breakAt_feed]
  rfl

/-- The maximal runs of characters that are not blank. -/
def words (text : Text) : List Text := (text.splitOnP isBlank).filter (!·.isEmpty)

private theorem splitOnP_eq (text : Text) : ∃ more,
    text.splitOnP isBlank = text.takeWhile (!isBlank ·) :: more := by
  induction text with
  | nil => exact ⟨[], rfl⟩
  | cons c text ih =>
    obtain ⟨more, hmore⟩ := ih
    rw [List.splitOnP_cons_eq_if_modifyHead]
    by_cases hc : isBlank c = true
    · exact ⟨text.splitOnP isBlank, by simp [hc]⟩
    · exact ⟨more, by simp [hc, hmore]⟩

/-- The first word is what stands at the front behind the blanks. -/
theorem head?_words (text : Text) :
    (words text).head? = if firstWord text = [] then none else some (firstWord text) := by
  induction text with
  | nil => rfl
  | cons c text ih =>
    by_cases hc : isBlank c = true
    · have hwords : words (c :: text) = words text := by
        simp [words, List.splitOnP_cons_eq_if_modifyHead, hc]
      have hfirst : firstWord (c :: text) = firstWord text := by simp [firstWord, hc]
      rw [hwords, hfirst, ih]
    · obtain ⟨more, hmore⟩ := splitOnP_eq text
      simp [words, List.splitOnP_cons_eq_if_modifyHead, hc, hmore, firstWord]

theorem head?_words_eq_some_iff {word : Text} (hne : word ≠ []) (text : Text) :
    (words text).head? = some word ↔ firstWord text = word := by
  rw [head?_words]
  by_cases hnil : firstWord text = []
  · simpa [hnil] using hne.symm
  · simp [hnil]

section
variable {gap word behind : Text} (hgap : ∀ c ∈ gap, isBlank c = true) (hne : word ≠ []) (hword : Solid word)
include hgap hne hword

private theorem trimLeft_append : trimLeft (gap ++ word ++ behind) = word ++ behind := by
  rw [trimLeft, List.append_assoc, List.dropWhile_append_of_pos hgap]
  cases word with
  | nil => exact absurd rfl hne
  | cons c word => simp [hword c (by simp)]

/-- The first word goes on up to a blank. -/
theorem firstWord_eq : firstWord (gap ++ word ++ behind) = word ++ behind.takeWhile (!isBlank ·) := by
  rw [firstWord, trimLeft_append hgap hne hword, List.takeWhile_append_of_pos]
  intro c hc
  simp [hword c hc]

/-- A keyword behind blanks is the first word if a blank or nothing follows. -/
theorem firstWord_append (h : Apart behind) :
    firstWord (gap ++ word ++ behind) = word ∧ afterWord (gap ++ word ++ behind) = behind := by
  rw [firstWord, afterWord, trimLeft_append hgap hne hword]
  apply span_append
  · intro c hc
    simp [hword c hc]
  · intro c hc
    simp [h c hc]

end

end SourceOrigin.Text
