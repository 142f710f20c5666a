import SourceOrigin.Classification

/-! What a classification depends on. Of a unit the heuristics see its path, the kind of its first token, and two things of
the trivia before that: whether a plain comment holds a marker, and whether all is layout. -/
namespace SourceOrigin
variable {config : Config} {tree other : SyntaxTree}

theorem Text.occursIn_iff {part text : Text} : occursIn part text = true ↔ part <:+: text := by
  induction text with
  | nil => simp [occursIn]
  | cons c rest ih => rw [occursIn, Bool.or_eq_true, ih, List.isPrefixOf_iff_prefix, List.infix_cons_iff]

/-- Two trees with the same path in which each heuristic finds the same are classified alike, with the same log. -/
theorem classify_congr (hpath : tree.filePath = other.filePath)
    (hholds : ∀ heuristic : Heuristic, heuristic.holds config tree = heuristic.holds config other)
    (token : CancellationToken) : classify config tree token = classify config other token := by
  have hrecord : ∀ heuristic : Heuristic, heuristic.record tree = heuristic.record other := by
    intro heuristic
    rw [Heuristic.record, Heuristic.record, hpath]
  suffices h : ∀ pending token, classifyBy config tree token pending = classifyBy config other token pending from
    h Heuristic.all token
  intro pending
  induction pending with
  | nil => exact fun token => rfl
  | cons heuristic pending ih =>
    intro token
    simp only [classifyBy, hholds, hrecord, ih]

def Config.marks (config : Config) (piece : Trivia) : Bool :=
  piece.isPlainComment && config.headerMarkers.any (Text.occursIn · piece.text)

theorem Config.marks_eq_false_of_isLayout {piece : Trivia} (h : piece.isLayout = true) : config.marks piece = false := by
  obtain ⟨kind, text⟩ := piece
  cases kind <;> simp_all [Config.marks, Trivia.isPlainComment, Trivia.isLayout, Trivia.isOneOf]

theorem firstSignificantIndex_isNone (trivia : List Trivia) :
    (firstSignificantIndex trivia).isNone = trivia.all (·.isLayout) := by
  rw [firstSignificantIndex, Bool.eq_iff_iff, Option.isNone_iff_eq_none, List.findIdx?_eq_none_iff]
  simp

/-- A unit is classified by its path, by the kind of its first token, and by whether the trivia before that hold a marked
comment or nothing but layout. -/
theorem SourceUnit.classify_congr {unit unit' : SourceUnit} (hpath : unit.filePath = unit'.filePath)
    (hkind : unit.firstTokenOrEnd.kind = unit'.firstTokenOrEnd.kind)
    (hmarks : unit.firstTokenOrEnd.leadingTrivia.any config.marks = unit'.firstTokenOrEnd.leadingTrivia.any config.marks)
    (hlayout : unit.firstTokenOrEnd.leadingTrivia.all (·.isLayout) = unit'.firstTokenOrEnd.leadingTrivia.all (·.isLayout))
    (token : CancellationToken) : classify config unit.tree token = classify config unit'.tree token := by
  have hsigns : ∀ unit : SourceUnit, hasGeneratedComment config unit.tree =
      unit.firstTokenOrEnd.leadingTrivia.any config.marks := fun _ => rfl
  have hempty : ∀ unit : SourceUnit, isEmptySource unit.tree =
      (decide (unit.firstTokenOrEnd.kind = .endOfFile) && unit.firstTokenOrEnd.leadingTrivia.all (·.isLayout)) := by
    intro unit
    rw [← firstSignificantIndex_isNone]
    rfl
  refine SourceOrigin.classify_congr hpath (fun heuristic => ?_) token
  cases heuristic with
  | fileName => simp only [Heuristic.holds, tree, hpath]
  | headerComment => simp only [Heuristic.holds, hsigns, hmarks]
  | emptiness => simp only [Heuristic.holds, hempty, hkind, hlayout]

end SourceOrigin
