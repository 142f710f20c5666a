import SourceOrigin.Pattern.Occurrence
import Mathlib.Data.List.Forall2

/-! Where a pattern occurs. The places that a pattern leads to are told by the texts between them and the places where it
starts; for a word that is to end the text this says that the text ends in the word. -/
namespace SourceOrigin.Pattern
variable {places : Places} {cursor : Cursor}

namespace Places

private theorem mem_onto {done : Places} {position : Nat} {text : Text} : cursor ∈ onto done position text ↔
    cursor ∈ done ∨ ∃ front, text = front ++ cursor.rest ∧ cursor.position = position + front.length := by
  induction text generalizing done position with
  | nil =>
    obtain ⟨place, rest⟩ := cursor
    simp only [onto, List.mem_cons, Cursor.mk.injEq, List.nil_eq, List.append_eq_nil_iff]
    constructor
    · rintro (⟨rfl, rfl⟩ | hdone)
      · exact .inr ⟨[], ⟨rfl, rfl⟩, rfl⟩
      · exact .inl hdone
    · rintro (hdone | ⟨_, ⟨rfl, rfl⟩, rfl⟩)
      · exact .inr hdone
      · exact .inl ⟨rfl, rfl⟩
  | cons c text ih =>
    obtain ⟨place, rest⟩ := cursor
    rw [onto, ih, List.mem_cons, Cursor.mk.injEq]
    constructor
    · rintro ((⟨rfl, rfl⟩ | hdone) | ⟨front, htext, hplace⟩)
      · exact .inr ⟨[], rfl, rfl⟩
      · exact .inl hdone
      · refine .inr ⟨c :: front, by rw [htext, List.cons_append], ?_⟩
        rw [hplace, List.length_cons]
        omega
    · rintro (hdone | ⟨front, htext, hplace⟩)
      · exact .inl (.inr hdone)
      cases front with
      | nil => exact .inl (.inl ⟨hplace, htext.symm⟩)
      | cons d front =>
        obtain ⟨rfl, hrest⟩ := List.cons.inj htext
        refine .inr ⟨front, hrest, ?_⟩
        rw [hplace, List.length_cons]
        omega

private theorem mem_ofText {text : Text} :
    cursor ∈ ofText text ↔ ∃ front, text = front ++ cursor.rest ∧ cursor.position = front.length := by
  simp [ofText, mem_onto]

end Places

theorem occursIn_iff {pattern : Pattern} {name : Text} :
    pattern.occursIn name = true ↔ ∃ cursor, cursor ∈ reach name.length pattern (.ofText name) := by
  rw [occursIn, Bool.not_eq_true', List.isEmpty_eq_false_iff_exists_mem]

private theorem mem_filterMap_over? {test : Char → Bool} : cursor ∈ places.filterMap (·.over? test) ↔
    ∃ start ∈ places, ∃ c, test c = true ∧ start.rest = c :: cursor.rest ∧ cursor.position = start.position + 1 := by
  rw [List.mem_filterMap]
  refine exists_congr fun start => and_congr_right fun _ => ?_
  obtain ⟨place, rest⟩ := start
  obtain ⟨position, behind⟩ := cursor
  cases rest with
  | nil => simp [Cursor.over?]
  | cons d rest =>
    rw [Cursor.over?, Option.ite_none_right_eq_some]
    constructor
    · rintro ⟨hd, hcursor⟩
      obtain ⟨rfl, rfl⟩ := Cursor.mk.inj (Option.some.inj hcursor)
      exact ⟨d, hd, rfl, rfl⟩
    · rintro ⟨c, hc, hrest, hposition⟩
      obtain ⟨rfl, hbehind⟩ := List.cons.inj hrest
      obtain rfl : rest = behind := hbehind
      obtain rfl : position = place + 1 := hposition
      exact ⟨hc, rfl⟩

def wordAtEnd (word : Text) : Pattern := sequence (word.map .char ++ [.textEnd])

private theorem wordAtEnd_cons (c : Char) (word : Text) : wordAtEnd (c :: word) = .append (.char c) (wordAtEnd word) := by
  cases word <;> rfl

private theorem mem_reach_wordAtEnd {length : Nat} {word : Text} : cursor ∈ reach length (wordAtEnd word) places ↔
    cursor.isEnd = true ∧ ∃ start ∈ places, ∃ part, List.Forall₂ (Text.sameLetter · ·) word part ∧
      start.rest = part ++ cursor.rest ∧ cursor.position = start.position + part.length := by
  induction word generalizing places with
  | nil =>
    obtain ⟨position, behind⟩ := cursor
    have hreach : reach length (wordAtEnd []) places = places.filter (·.isEnd) := rfl
    rw [hreach, List.mem_filter, and_comm]
    refine and_congr_right fun _ => ⟨fun hmem => ⟨_, hmem, [], .nil, rfl, rfl⟩, ?_⟩
    rintro ⟨⟨place, rest⟩, hmem, part, hpart, hrest, hposition⟩
    cases hpart
    obtain rfl : rest = behind := hrest
    obtain rfl : position = place := hposition
    exact hmem
  | cons c word ih =>
    have hreach : reach length (wordAtEnd (c :: word)) places =
        reach length (wordAtEnd word) (places.filterMap (·.over? (Text.sameLetter c))) := by
      rw [wordAtEnd_cons]
      rfl
    rw [hreach, ih]
    refine and_congr_right fun _ => ⟨?_, ?_⟩
    · rintro ⟨between, hbetween, part, hpart, hrest, hposition⟩
      obtain ⟨start, hstart, d, hd, hfirst, hplace⟩ := mem_filterMap_over?.mp hbetween
      refine ⟨start, hstart, d :: part, .cons hd hpart, by rw [hfirst, hrest, List.cons_append], ?_⟩
      rw [hposition, hplace, List.length_cons]
      omega
    · rintro ⟨start, hstart, part, hpart, hrest, hposition⟩
      cases hpart with
      | @cons _ d _ part hd hpart =>
        refine ⟨⟨start.position + 1, part ++ cursor.rest⟩, mem_filterMap_over?.mpr ⟨start, hstart, d, hd, hrest, rfl⟩,
          part, hpart, rfl, ?_⟩
        rw [hposition, List.length_cons]
        dsimp only
        omega

/-- A word occurs at the end of a text if the text ends in the same letters, perhaps before one line feed. -/
theorem occursIn_wordAtEnd {word name : Text} : (wordAtEnd word).occursIn name = true ↔
    ∃ front part behind, name = front ++ (part ++ behind) ∧ List.Forall₂ (Text.sameLetter · ·) word part ∧
      (behind = [] ∨ behind = ['\n']) := by
  rw [occursIn_iff]
  constructor
  · rintro ⟨cursor, hcursor⟩
    obtain ⟨hend, start, hstart, part, hpart, hrest, -⟩ := mem_reach_wordAtEnd.mp hcursor
    obtain ⟨front, hname, -⟩ := Places.mem_ofText.mp hstart
    exact ⟨front, part, cursor.rest, by rw [hname, hrest], hpart, by simpa [Cursor.isEnd] using hend⟩
  · rintro ⟨front, part, behind, hname, hpart, hbehind⟩
    have hstart : (⟨front.length, part ++ behind⟩ : Cursor) ∈ Places.ofText name := Places.mem_ofText.mpr ⟨front, hname, rfl⟩
    exact ⟨⟨front.length + part.length, behind⟩,
      mem_reach_wordAtEnd.mpr ⟨by simpa [Cursor.isEnd] using hbehind, _, hstart, part, hpart, rfl, rfl⟩⟩

end SourceOrigin.Pattern
