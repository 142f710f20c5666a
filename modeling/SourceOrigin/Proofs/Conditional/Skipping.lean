import SourceOrigin.Proofs.Conditional.Reference

/-! Skipping disabled lines: a skip that starts in front of a tree passes the tree as a whole, whatever
groups are nested in it, and so it ends at a directive of the group that it was started for. -/
namespace SourceOrigin

theorem Condition.ofText_eq (written : Text) :
    Condition.ofText written = (Conditional.Guard.condition written).reading := by
  rw [Condition.ofText, Conditional.Guard.reading, Text.head?_words]
  by_cases hnil : Text.firstWord written = []
  · simp [hnil]
  · simp [hnil]

namespace Conditional

def IsWord (keyword : String) : Prop :=
  keyword.toList ≠ [] ∧ Text.Solid keyword.toList

instance (keyword : String) : Decidable (IsWord keyword) := inferInstanceAs (Decidable (_ ∧ _))

namespace DirectiveLine
variable (directive : DirectiveLine) {keyword : String}

theorem unbroken_text (h : IsWord keyword) : Text.Unbroken (directive.text keyword) := by
  have hinline : ∀ c, Text.isInlineBlank c = true → Text.isBreak c = false := by
    intro c hc
    simpa [Text.isInlineBlank] using (Bool.and_eq_true_iff.mp hc).2
  intro c hc
  simp only [text, content, List.mem_append, List.mem_cons] at hc
  rcases hc with hc | rfl | (hc | hc) | hc
  · exact hinline c (directive.indent_inline c hc)
  · decide
  · exact hinline c (directive.gap_inline c hc)
  · exact Text.isBreak_of_not_isBlank (h.2 c hc)
  · exact directive.unbroken c hc

private theorem words_content (h : IsWord keyword) :
    Text.firstWord (directive.content keyword) = keyword.toList ∧
      Text.afterWord (directive.content keyword) = directive.behind :=
  Text.firstWord_append (fun c hc => Text.isBlank_of_isInlineBlank (directive.gap_inline c hc))
    h.1 h.2 directive.apart

private theorem trimLeft_text : Text.trimLeft (directive.text keyword) = '#' :: directive.content keyword := by
  rw [Text.trimLeft, text, List.dropWhile_append_of_pos]
  · simp [show Text.isBlank '#' = false by decide]
  · exact fun c hc => Text.isBlank_of_isInlineBlank (directive.indent_inline c hc)

private theorem ofLine?_text : Directive.ofLine? (directive.text keyword) =
    some (Directive.ofText (directive.content keyword)) := by
  simp only [Directive.ofLine?, trimLeft_text]

theorem ofText_if : Directive.ofText (directive.content "if") =
    .opening (Guard.condition directive.behind).reading := by
  obtain ⟨hfirst, hafter⟩ := directive.words_content (show IsWord "if" by decide)
  simp [Directive.ofText, hfirst, hafter, Condition.ofText_eq]

theorem ofText_endif : Directive.ofText (directive.content "endif") = .closing := by
  obtain ⟨hfirst, -⟩ := directive.words_content (show IsWord "endif" by decide)
  simp [Directive.ofText, hfirst]

theorem isWord_branchKeyword (fallback : Bool) : IsWord (branchKeyword fallback) := by
  cases fallback <;> decide

theorem ofText_branch (fallback : Bool) : Directive.ofText (directive.content (branchKeyword fallback)) =
    .alternative (branchGuard fallback directive).reading := by
  obtain ⟨hfirst, hafter⟩ := directive.words_content (isWord_branchKeyword fallback)
  cases fallback with
  | false => simp_all [Directive.ofText, branchKeyword, branchGuard, Condition.ofText_eq]
  | true => simp_all [Directive.ofText, branchKeyword, branchGuard, Guard.reading]

end DirectiveLine

theorem ofLine?_of_not_isConditional {line : Text} (h : isConditional line = false) :
    Directive.ofLine? line = none ∨ Directive.ofLine? line = some .other := by
  unfold Directive.ofLine?
  unfold isConditional at h
  split
  · next rest hrest =>
    rw [Text.trimLeft] at hrest
    rw [hrest] at h
    right
    by_cases hnil : Text.firstWord rest = []
    · simp [Directive.ofText, hnil]
    · simp_all [Directive.ofText, Text.head?_words, conditionalKeywords]
  · exact .inl rfl

def Inert (occurrences : List Occurrence) : Prop :=
  ∀ occurrence ∈ occurrences, occurrence.isDirective = false →
    ∀ line ∈ occurrence.lines, isConditional line = false

private theorem inert_append {occurrences more : List Occurrence} :
    Inert (occurrences ++ more) ↔ Inert occurrences ∧ Inert more :=
  List.forall_mem_append

theorem inert_within {place : Place} {occurrences : List Occurrence} :
    Inert (occurrences.map (.within place)) ↔ Inert occurrences := by
  simp [Inert, Occurrence.within]

private theorem disabledLength_line {line : Text} (h : Text.Unbroken line) (toAlternative : Bool)
    (before depth : Nat) (rest : Text) :
    disabledLength toAlternative before depth (line ++ '\n' :: rest) =
      match Directive.ofLine? line with
      | some (.opening _) =>
        disabledLength toAlternative (before + line.length + 1) (depth + 1) rest
      | some .closing =>
        if depth = 0 then before
        else disabledLength toAlternative (before + line.length + 1) (depth - 1) rest
      | some (.alternative _) =>
        if depth = 0 && toAlternative then before
        else disabledLength toAlternative (before + line.length + 1) depth rest
      | _ => disabledLength toAlternative (before + line.length + 1) depth rest := by
  obtain ⟨c, more, hcons⟩ : ∃ c more, line ++ '\n' :: rest = c :: more := by
    cases line with
    | nil => exact ⟨_, _, rfl⟩
    | cons c line => exact ⟨_, _, rfl⟩
  rw [hcons, disabledLength, ← hcons, Text.lineAt_line h, Text.afterLine_line h, Text.breakAt_feed,
    Text.afterBreak_feed]
  rfl

namespace DirectiveLine
variable (directive : DirectiveLine) (toAlternative : Bool) (before depth : Nat) (rest : Text)

private theorem disabledLength_endif :
    disabledLength toAlternative before depth (directive.text "endif" ++ '\n' :: rest) =
      if depth = 0 then before
      else disabledLength toAlternative (before + (directive.text "endif").length + 1) (depth - 1) rest := by
  rw [disabledLength_line (directive.unbroken_text (by decide)), directive.ofLine?_text, directive.ofText_endif]

private theorem disabledLength_branch (fallback : Bool) :
    disabledLength toAlternative before depth (directive.text (branchKeyword fallback) ++ '\n' :: rest) =
      if depth = 0 && toAlternative then before
      else disabledLength toAlternative (before + (directive.text (branchKeyword fallback)).length + 1) depth
        rest := by
  rw [disabledLength_line (directive.unbroken_text (isWord_branchKeyword fallback)), directive.ofLine?_text,
    directive.ofText_branch]

end DirectiveLine

section
variable (toAlternative : Bool)

/-- A skip passes lines that are no conditional directives. -/
theorem disabledLength_lines (lines : List Line) (h : ∀ line ∈ lines, isConditional line.text = false)
    (before depth : Nat) (rest : Text) :
    disabledLength toAlternative before depth (Text.unlines (lines.map (·.text)) ++ rest) =
      disabledLength toAlternative (before + (Text.unlines (lines.map (·.text))).length) depth rest := by
  induction lines generalizing before with
  | nil => rfl
  | cons line lines ih =>
    obtain ⟨hline, hlines⟩ := List.forall_mem_cons.mp h
    rw [List.map_cons, Text.unlines_cons, List.append_assoc, List.cons_append,
      disabledLength_line line.unbroken]
    rcases ofLine?_of_not_isConditional hline with hread | hread
    all_goals
      rw [hread]
      dsimp only
      rw [ih hlines]
      congr 1
      simp only [List.length_append, List.length_cons]
      omega

mutual

theorem Tree.disabledLength_render : ∀ (tree : Tree) (before depth : Nat) (rest : Text),
    Inert tree.occurrences →
    disabledLength toAlternative before depth (tree.render ++ rest) =
      disabledLength toAlternative (before + tree.render.length) depth rest
  | .empty, before, depth, rest, h => rfl
  | .lines lines more, before, depth, rest, h => by
    obtain ⟨hlines, hmore⟩ := List.forall_mem_cons.mp h
    rw [Tree.render, List.append_assoc, disabledLength_lines toAlternative lines (by simpa using hlines rfl),
      more.disabledLength_render _ _ _ hmore, List.length_append, Nat.add_assoc]
  | .group opening body others more, before, depth, rest, h => by
    obtain ⟨-, hinert⟩ := List.forall_mem_cons.mp h
    obtain ⟨hgroup, hmore⟩ := inert_append.mp hinert
    obtain ⟨hbody, hothers⟩ := inert_append.mp hgroup
    simp only [Tree.render, List.append_assoc, List.cons_append]
    rw [disabledLength_line (opening.unbroken_text (by decide)), opening.ofLine?_text,
      opening.ofText_if]
    dsimp only
    rw [body.disabledLength_render _ _ _ (inert_within.mp hbody),
      others.disabledLength_render _ _ _ _ _ hothers, more.disabledLength_render _ _ _ hmore]
    congr 1
    simp only [List.length_append, List.length_cons]
    omega

/-- A skip inside a group passes the branches that remain, and leaves the group. -/
theorem Branches.disabledLength_render : ∀ (branches : Branches) (guards : List Guard)
    (number before depth : Nat) (rest : Text), Inert (branches.occurrences guards number) →
    disabledLength toAlternative before (depth + 1) (branches.render ++ rest) =
      disabledLength toAlternative (before + branches.render.length) depth rest
  | .closing directive, guards, number, before, depth, rest, h => by
    simp only [Branches.render, List.append_assoc, List.cons_append, List.nil_append]
    rw [directive.disabledLength_endif]
    simp [Nat.add_assoc]
  | .branch fallback directive body others, guards, number, before, depth, rest, h => by
    obtain ⟨-, hinert⟩ := List.forall_mem_cons.mp h
    obtain ⟨hbody, hothers⟩ := inert_append.mp hinert
    simp only [Branches.render, List.append_assoc, List.cons_append]
    rw [directive.disabledLength_branch]
    simp only [Nat.add_one_ne_zero, decide_false, Bool.false_and, Bool.false_eq_true, if_false]
    rw [body.disabledLength_render _ _ _ (inert_within.mp hbody),
      others.disabledLength_render _ _ _ _ _ hothers]
    congr 1
    simp only [List.length_append, List.length_cons]
    omega

end

end

/-- A skip that may end at an alternative ends at the next directive of the group. -/
theorem Branches.disabledLength_alternative (branches : Branches) (before : Nat) (rest : Text) :
    disabledLength true before 0 (branches.render ++ rest) = before := by
  cases branches with
  | closing directive =>
    simp only [Branches.render, List.append_assoc, List.cons_append, List.nil_append]
    rw [directive.disabledLength_endif]
    rfl
  | branch fallback directive body others =>
    simp only [Branches.render, List.append_assoc, List.cons_append]
    rw [directive.disabledLength_branch]
    rfl

def Branches.inner : Branches → Text
  | .closing _ => []
  | .branch fallback directive body others =>
    directive.text (branchKeyword fallback) ++ '\n' :: (body.render ++ others.inner)

def Branches.last : Branches → DirectiveLine
  | .closing directive => directive
  | .branch _ _ _ others => others.last

theorem Branches.render_eq (branches : Branches) :
    branches.render = branches.inner ++ (Branches.closing branches.last).render := by
  induction branches using Branches.inner.induct with
  | case1 directive => rfl
  | case2 fallback directive body others ih =>
    simp only [Branches.render, Branches.inner, Branches.last, List.append_assoc, List.cons_append] at ih ⊢
    rw [ih]

/-- A skip that may not end at an alternative ends where the group is closed. -/
theorem Branches.disabledLength_closing (branches : Branches) (guards : List Guard)
    (number before : Nat) (rest : Text) (h : Inert (branches.occurrences guards number)) :
    disabledLength false before 0 (branches.render ++ rest) = before + branches.inner.length := by
  induction branches using Branches.inner.induct generalizing number before with
  | case1 directive =>
    simp only [Branches.render, List.append_assoc, List.cons_append, List.nil_append]
    rw [directive.disabledLength_endif]
    rfl
  | case2 fallback directive body others ih =>
    obtain ⟨-, hinert⟩ := List.forall_mem_cons.mp h
    obtain ⟨hbody, hothers⟩ := inert_append.mp hinert
    simp only [Branches.render, List.append_assoc, List.cons_append]
    rw [directive.disabledLength_branch]
    simp only [decide_true, Bool.and_false, Bool.false_eq_true, if_false]
    rw [body.disabledLength_render _ _ _ _ (inert_within.mp hbody), ih _ _ hothers, Branches.inner]
    simp only [List.length_append, List.length_cons]
    omega

end Conditional
end SourceOrigin
