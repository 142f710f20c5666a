import SourceOrigin.Proofs.Classification
import SourceOrigin.Proofs.Lexer.Tiling

/-! Trivia as intervals of the source text. The pieces before the first token stand behind each other from offset 0, so
each of them has a span, and the search for a marker in plain comments is one for an occurrence in the text that lies
within the span of a single one. -/
namespace SourceOrigin

/-- The interval of the source text that a piece of trivia takes up. -/
structure Span where
  kind : TriviaKind
  start : Nat
  stop : Nat
  deriving DecidableEq, Repr

def Text.OccursAt (part text : Text) (offset : Nat) : Prop := (text.drop offset).take part.length = part

namespace Span

def IsPlainComment (span : Span) : Prop := span.kind = .lineComment ∨ span.kind = .blockComment

def Encloses (span : Span) (start stop : Nat) : Prop := span.start ≤ start ∧ stop ≤ span.stop

def IsLeftBy (span : Span) (start stop : Nat) : Prop := span.start ≤ start ∧ start < span.stop ∧ span.stop < stop

def cut (text : Text) (span : Span) : Trivia := ⟨span.kind, (text.drop span.start).take (span.stop - span.start)⟩

/-- The spans stand behind each other between two offsets, with nothing in between, and none is empty. -/
inductive Consecutive : Nat → List Span → Nat → Prop where
  | nil (offset : Nat) : Consecutive offset [] offset
  | cons (kind : TriviaKind) {start stop last : Nat} {spans : List Span} : start < stop →
      Consecutive stop spans last → Consecutive start (⟨kind, start, stop⟩ :: spans) last

variable {spans : List Span} {first last offset : Nat}

private theorem Consecutive.bounds (h : Consecutive first spans last) :
    first ≤ last ∧ ∀ span ∈ spans, first ≤ span.start ∧ span.start < span.stop ∧ span.stop ≤ last := by
  induction h with
  | nil => simp
  | cons kind hlt _ ih =>
    obtain ⟨hle, hspans⟩ := ih
    refine ⟨by omega, fun span hmem => ?_⟩
    rcases List.mem_cons.mp hmem with rfl | hmem
    · exact ⟨Nat.le_refl _, hlt, hle⟩
    · have hspan := hspans span hmem
      omega

private theorem Consecutive.exists_span (h : Consecutive first spans last) (hfirst : first ≤ offset)
    (hlast : offset < last) :
    ∃ span ∈ spans, span.start ≤ offset ∧ offset < span.stop := by
  induction h with
  | nil => omega
  | @cons kind start stop last spans hlt _ ih =>
    by_cases hoffset : offset < stop
    · exact ⟨⟨kind, start, stop⟩, List.mem_cons_self, hfirst, hoffset⟩
    · obtain ⟨span, hmem, hspan⟩ := ih (by omega) hlast
      exact ⟨span, List.mem_cons_of_mem _ hmem, hspan⟩

/-- No offset lies in two spans. -/
theorem Consecutive.unique (h : Consecutive first spans last) {span other : Span} (hspan : span ∈ spans)
    (hother : other ∈ spans) (hle : span.start ≤ offset) (hlt : offset < span.stop) (hle' : other.start ≤ offset)
    (hlt' : offset < other.stop) : span = other := by
  induction h with
  | nil => simp at hspan
  | cons kind _ hrest ih =>
    have hbounds := hrest.bounds.2
    rcases List.mem_cons.mp hspan with rfl | hspan
    · rcases List.mem_cons.mp hother with rfl | hother
      · rfl
      · have := hbounds other hother
        simp only at hlt
        omega
    · rcases List.mem_cons.mp hother with rfl | hother
      · have := hbounds span hspan
        simp only at hlt'
        omega
      · exact ih hspan hother

private theorem infix_cut_iff {span : Span} (hspan : span.start ≤ span.stop) (part text : Text) :
    part <:+: (span.cut text).text ↔
      ∃ offset, Text.OccursAt part text offset ∧ span.Encloses offset (offset + part.length) := by
  unfold cut
  dsimp only
  constructor
  · rintro ⟨before, behind, hcut⟩
    refine ⟨span.start + before.length, ?_, Nat.le_add_right _ _, ?_⟩
    · have hdrop : text.drop span.start =
          before ++ (part ++ (behind ++ (text.drop span.start).drop (span.stop - span.start))) := by
        conv => lhs; rw [← List.take_append_drop (span.stop - span.start) (text.drop span.start), ← hcut]
        simp only [List.append_assoc]
      rw [Text.OccursAt, ← List.drop_drop, hdrop, List.drop_left, List.take_left]
    · have hlength := congrArg List.length hcut
      simp only [List.length_append, List.length_take] at hlength
      omega
  · rintro ⟨offset, hoccurs, hstart, hstop⟩
    have hpart : part = ((((text.drop span.start).take (span.stop - span.start)).drop (offset - span.start)).take
        part.length) := by
      rw [List.drop_take, List.drop_drop, List.take_take, Nat.add_sub_cancel' hstart, Nat.min_eq_left (by omega)]
      exact hoccurs.symm
    rw [hpart]
    exact (List.take_prefix _ _).isInfix.trans (List.drop_suffix _ _).isInfix

end Span

namespace Trivia
variable {pieces : List Trivia}

def spansFrom (start : Nat) : List Trivia → List Span
  | [] => []
  | piece :: pieces =>
    ⟨piece.kind, start, start + piece.text.length⟩ :: spansFrom (start + piece.text.length) pieces

private theorem consecutive_spansFrom (start : Nat) (h : ∀ piece ∈ pieces, piece.text ≠ []) :
    Span.Consecutive start (spansFrom start pieces) (start + (Trivia.texts pieces).length) := by
  induction pieces generalizing start with
  | nil => exact .nil start
  | cons piece pieces ih =>
    have hpos : 0 < piece.text.length := List.length_pos_iff.mpr (h piece List.mem_cons_self)
    have hrest := ih (start + piece.text.length) fun other hmem => h other (List.mem_cons_of_mem _ hmem)
    rw [Nat.add_assoc, ← List.length_append, ← Trivia.texts_cons] at hrest
    exact .cons piece.kind (by omega) hrest

private theorem cut_spansFrom (front left : Text) (pieces : List Trivia) :
    (spansFrom front.length pieces).map (Span.cut (front ++ (Trivia.texts pieces ++ left))) = pieces := by
  induction pieces generalizing front with
  | nil => rfl
  | cons piece pieces ih =>
    have hrest := ih (front ++ piece.text)
    rw [List.length_append] at hrest
    rw [spansFrom, List.map_cons, Trivia.texts_cons, List.append_assoc, ← List.append_assoc front, hrest]
    have hcut : Span.cut (front ++ piece.text ++ (Trivia.texts pieces ++ left))
        ⟨piece.kind, front.length, front.length + piece.text.length⟩ = piece := by
      simp [Span.cut]
    rw [hcut]

end Trivia

namespace SourceUnit

def spans (unit : SourceUnit) : List Span := Trivia.spansFrom 0 unit.firstTokenOrEnd.leadingTrivia

def headLength (unit : SourceUnit) : Nat := (Trivia.texts unit.firstTokenOrEnd.leadingTrivia).length

/-- The interval lies within a single plain comment before the first token. -/
def Counts (unit : SourceUnit) (start stop : Nat) : Prop :=
  ∃ span ∈ unit.spans, span.IsPlainComment ∧ span.Encloses start stop

/-- The interval lies within a single piece of trivia of another kind, begins at the first token or behind it, or goes
from one piece of trivia to what follows it. -/
def Ignores (unit : SourceUnit) (start stop : Nat) : Prop :=
  (∃ span ∈ unit.spans, ¬ span.IsPlainComment ∧ span.Encloses start stop) ∨ unit.headLength ≤ start ∨
    ∃ span ∈ unit.spans, span.IsLeftBy start stop

/-- An interval that is not empty either counts or is ignored. -/
theorem ignores_iff_not_counts {unit : SourceUnit} (h : Span.Consecutive 0 unit.spans unit.headLength) {start stop : Nat}
    (hlt : start < stop) : unit.Ignores start stop ↔ ¬ unit.Counts start stop := by
  constructor
  · rintro hignored ⟨span, hmem, hplain, hstart, hstop⟩
    have hspan := h.bounds.2 span hmem
    rcases hignored with ⟨other, hother, hkind, hstart', hstop'⟩ | hbehind | ⟨other, hother, hstart', hin, hout⟩
    · rw [h.unique hmem hother hstart (by omega) hstart' (by omega)] at hplain
      exact hkind hplain
    · omega
    · rw [h.unique hmem hother hstart (by omega) hstart' hin] at hstop
      omega
  · intro hcounts
    by_cases hbehind : unit.headLength ≤ start
    · exact .inr (.inl hbehind)
    obtain ⟨span, hmem, hstart, hin⟩ := h.exists_span (Nat.zero_le start) (Nat.lt_of_not_le hbehind)
    by_cases hout : span.stop < stop
    · exact .inr (.inr ⟨span, hmem, hstart, hin, hout⟩)
    · refine .inl ⟨span, hmem, fun hplain => ?_, hstart, Nat.le_of_not_lt hout⟩
      exact hcounts ⟨span, hmem, hplain, hstart, Nat.le_of_not_lt hout⟩

/-- A plain comment before the first token holds a marker if the marker stands in the text within the span of one. -/
theorem hasGeneratedComment_iff_counts {unit : SourceUnit} {source : Text} (config : Config)
    (h : Span.Consecutive 0 unit.spans unit.headLength)
    (hcut : unit.spans.map (Span.cut source) = unit.firstTokenOrEnd.leadingTrivia) :
    hasGeneratedComment config unit.tree = true ↔ ∃ marker ∈ config.headerMarkers, ∃ offset,
      Text.OccursAt marker source offset ∧ unit.Counts offset (offset + marker.length) := by
  have hmarks : hasGeneratedComment config unit.tree = unit.firstTokenOrEnd.leadingTrivia.any config.marks := rfl
  have hplain (span : Span) : (span.cut source).isPlainComment = true ↔ span.IsPlainComment := by
    simp [Trivia.isPlainComment, Trivia.isOneOf, Span.cut, Span.IsPlainComment]
  have hspan : ∀ span ∈ unit.spans, config.marks (span.cut source) = true ↔
      ∃ marker ∈ config.headerMarkers, ∃ offset, Text.OccursAt marker source offset ∧ span.IsPlainComment ∧
        span.Encloses offset (offset + marker.length) := by
    intro span hmem
    have hbounds := h.bounds.2 span hmem
    simp only [Config.marks, Bool.and_eq_true, hplain, List.any_eq_true, Text.occursIn_iff,
      Span.infix_cut_iff (Nat.le_of_lt hbounds.2.1)]
    constructor
    · rintro ⟨hkind, marker, hmarker, offset, hoccurs, hencloses⟩
      exact ⟨marker, hmarker, offset, hoccurs, hkind, hencloses⟩
    · rintro ⟨marker, hmarker, offset, hoccurs, hkind, hencloses⟩
      exact ⟨hkind, marker, hmarker, offset, hoccurs, hencloses⟩
  rw [hmarks, ← hcut, List.any_map, List.any_eq_true]
  constructor
  · rintro ⟨span, hmem, hmarked⟩
    obtain ⟨marker, hmarker, offset, hoccurs, hkind, hencloses⟩ := (hspan span hmem).mp hmarked
    exact ⟨marker, hmarker, offset, hoccurs, span, hmem, hkind, hencloses⟩
  · rintro ⟨marker, hmarker, offset, hoccurs, span, hmem, hkind, hencloses⟩
    exact ⟨span, hmem, (hspan span hmem).mpr ⟨marker, hmarker, offset, hoccurs, hkind, hencloses⟩⟩

private theorem takeWhile_of_stops {last : Lexer.State} {left : Text} {token : Option Text}
    (h : Lexer.Stops last left token) :
    left.takeWhile (!Text.isBlank ·) = token.getD [] := by
  cases left with
  | nil =>
    obtain rfl : token = none := h
    rfl
  | cons first rest =>
    obtain ⟨-, rfl⟩ : _ ∧ token = some _ := h
    rfl

/-- Header detection by offsets of the source. The spans of the trivia stand behind each other from the front of the text
to the first token, or to the end of the text without one; a marker is found just if it stands in the text within the span
of a single plain comment. An interval that is not empty counts in this way, or is ignored for one of three reasons. -/
theorem hasGeneratedComment_iff_occurs (config : Config) (text : Text) (path : Option Text) :
    let source := withoutMark text
    let unit := ofText text path
    Span.Consecutive 0 unit.spans unit.headLength ∧
    unit.spans.map (Span.cut source) = unit.firstTokenOrEnd.leadingTrivia ∧
    (source.drop unit.headLength).takeWhile (!Text.isBlank ·) = (unit.firstToken.map (·.text)).getD [] ∧
    (hasGeneratedComment config unit.tree = true ↔ ∃ marker ∈ config.headerMarkers, ∃ offset,
      Text.OccursAt marker source offset ∧ unit.Counts offset (offset + marker.length)) ∧
    ∀ start stop, start < stop → (unit.Ignores start stop ↔ ¬ unit.Counts start stop) := by
  intro source unit
  obtain ⟨last, left, hrun, hstop⟩ := exists_run text path
  obtain ⟨hsource, hnonempty⟩ := hrun.tiles
  change Trivia.texts unit.firstTokenOrEnd.leadingTrivia ++ left = source at hsource
  have hconsecutive : Span.Consecutive 0 unit.spans unit.headLength := by
    have hspans := Trivia.consecutive_spansFrom 0 hnonempty
    rwa [Nat.zero_add] at hspans
  have hcut : unit.spans.map (Span.cut source) = unit.firstTokenOrEnd.leadingTrivia := by
    have hspans := Trivia.cut_spansFrom [] left unit.firstTokenOrEnd.leadingTrivia
    rwa [List.nil_append, hsource] at hspans
  refine ⟨hconsecutive, hcut, ?_, hasGeneratedComment_iff_counts config hconsecutive hcut, ?_⟩
  · rw [← hsource, headLength, List.drop_left]
    exact takeWhile_of_stops hstop
  · exact fun start stop hlt => ignores_iff_not_counts hconsecutive hlt

end SourceUnit

end SourceOrigin
