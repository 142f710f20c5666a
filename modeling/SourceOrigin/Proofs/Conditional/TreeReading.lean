import SourceOrigin.Proofs.Conditional.DirectiveReading
import SourceOrigin.Proofs.Conditional.Settled

/-! The lexer reads a conditional tree as the dead and live lines of it say. The stack of open conditionals
holds, for every group that is open, what the guards read so far have settled; a skip starts where a run of
dead lines does, and ends behind it. -/
namespace SourceOrigin.Conditional
open Lexer (Run Reading readOn)

/-- The reading of lines of which it is known whether they are dead, behind dead lines that are still to be
put together: the live lines of an item are read for themselves. -/
def glue (pending : Text) : List MarkedLines → Reading
  | [] => (optionalPiece .disabledText pending, none)
  | ⟨true, lines⟩ :: rest => glue (pending ++ Text.unlines lines) rest
  | ⟨false, lines⟩ :: rest =>
    Reading.andThen (optionalPiece .disabledText pending, none)
      (Reading.andThen (Lexer.read (Text.unlines lines)) (glue [] rest))

private theorem glue_live (pending : Text) (lines : List Text) (rest : List MarkedLines) :
    glue pending (⟨false, lines⟩ :: rest) =
      Reading.andThen (optionalPiece .disabledText pending, none) (glue [] (⟨false, lines⟩ :: rest)) := by
  simp [glue, optionalPiece]

private theorem glue_dead {occurrences : List Occurrence} (h : ∀ occurrence ∈ occurrences, occurrence.isDead = true)
    (pending : Text) (rest : List MarkedLines) :
    glue pending (occurrences.map (·.mark) ++ rest) = glue (pending ++ textOf occurrences) rest := by
  induction occurrences generalizing pending with
  | nil => simp
  | cons occurrence occurrences ih =>
    obtain ⟨hdead, hmore⟩ := List.forall_mem_cons.mp h
    rw [List.map_cons, List.cons_append, Occurrence.mark, hdead, glue, ih hmore, textOf_cons, Occurrence.text,
      List.append_assoc]

private theorem mark_within_live {place : Place} (h : place.isDead = false) (occurrences : List Occurrence) :
    (occurrences.map (Occurrence.within place)).map Occurrence.mark = occurrences.map Occurrence.mark := by
  simp [Occurrence.within, Occurrence.mark, Occurrence.isDead, h]

private theorem isDead_within {place : Place} (h : place.isDead = true) (occurrences : List Occurrence) :
    ∀ occurrence ∈ occurrences.map (Occurrence.within place), occurrence.isDead = true := by
  simp [Occurrence.within, Occurrence.isDead, h]

/-- No line is a conditional directive, those of the groups themselves apart, and no block comment runs on
behind the live lines of an item. -/
def Legible (occurrences : List Occurrence) : Prop :=
  ∀ occurrence ∈ occurrences, occurrence.isDirective = false →
    (∀ line ∈ occurrence.lines, isConditional line = false) ∧
      (occurrence.isDead = false → ∀ piece ∈ (Lexer.read occurrence.text).1, Lexer.IsClosed piece)

private theorem legible_append {occurrences more : List Occurrence} :
    Legible (occurrences ++ more) ↔ Legible occurrences ∧ Legible more :=
  List.forall_mem_append

private theorem legible_within {place : Place} (h : place.isDead = false) {occurrences : List Occurrence} :
    Legible (occurrences.map (.within place)) ↔ Legible occurrences := by
  simp [Legible, Occurrence.within, Occurrence.isDead, Occurrence.text, h]

private theorem Legible.inert {occurrences : List Occurrence} (h : Legible occurrences) : Inert occurrences :=
  fun occurrence hmem hline => (h occurrence hmem hline).1

/-- From a spent branch on everything is dead up to the directive that closes the group. -/
theorem Branches.occurrences_spent (branches : Branches) (guards : List Guard) (number : Nat)
    (h : isSpent (guards.map (·.reading)) (number - 1) = true) : ∃ dead : List Occurrence,
      branches.occurrences guards number = dead ++ [⟨[], true, [branches.last.text "endif"]⟩] ∧
      (∀ occurrence ∈ dead, occurrence.isDead = true) ∧ textOf dead = branches.inner := by
  induction branches using Branches.inner.induct generalizing number with
  | case1 directive => exact ⟨[], rfl, by simp, rfl⟩
  | case2 fallback directive body others ih =>
    have hspent : isSpent (guards.map (·.reading)) number = true := isSpent_mono (Nat.sub_le _ _) h
    have hinside : (Place.inside guards number).isDead = true :=
      (isDead_iff _ _).mpr (.inl ((isSpent_iff _ _).mp hspent))
    obtain ⟨dead, hothers, hdead, htext⟩ := ih (number + 1) hspent
    refine ⟨⟨[.heading guards number], true, [directive.text (branchKeyword fallback)]⟩ ::
      (body.occurrences.map (.within (.inside guards number)) ++ dead), ?_, ?_, ?_⟩
    · rw [Branches.occurrences, hothers, Branches.last, List.cons_append, List.append_assoc]
    · rw [List.forall_mem_cons, List.forall_mem_append]
      exact ⟨by simp [Occurrence.isDead, Place.isDead, h], isDead_within hinside _, hdead⟩
    · rw [textOf_cons, textOf_append, textOf_within, body.textOf_occurrences, htext, Branches.inner]
      simp [Occurrence.text]

section
variable {guards : List Guard} {number : Nat} {stack stack' : List Condition} {rest : Text}
  {more : List MarkedLines} {directive : DirectiveLine} {keyword : String}

private theorem glue_directive (h : IsWord keyword) (rest : List MarkedLines) :
    glue [] (⟨false, [directive.text keyword]⟩ :: rest) =
      Reading.andThen (lineTrivia (directive.text keyword) ++ [feed], none) (glue [] rest) := by
  rw [glue, Text.unlines_cons, Text.unlines_nil, directive.read_text h]
  rfl

/-- What follows a branch that is not spent begins with a live directive. -/
private theorem occurrences_live (others : Branches)
    (h : isSpent (guards.map (·.reading)) number = false) : ∃ lines tail,
      (others.occurrences guards (number + 1)).map (·.mark) = ⟨false, lines⟩ :: tail := by
  cases others with
  | closing directive => exact ⟨_, _, rfl⟩
  | branch fallback directive body others =>
    have hheading : (⟨[.heading guards (number + 1)], true, [directive.text (branchKeyword fallback)]⟩ :
        Occurrence).mark = ⟨false, [directive.text (branchKeyword fallback)]⟩ := by
      simp [Occurrence.mark, Occurrence.isDead, Place.isDead, h]
    rw [Branches.occurrences, List.map_cons, hheading]
    exact ⟨_, _, rfl⟩

/-- A guard takes part in what is settled as long as nothing else decides. -/
private theorem track_alternative {before : Condition} (condition : Condition) (h : before ≠ .holds)
    (stack : List Condition) : Directive.track (.alternative condition) (before :: stack) =
      ((if before = .fails then condition else before) :: stack,
        .ofCondition (if before = .fails then condition else before)) := by
  cases before with
  | fails => rfl
  | holds => exact absurd rfl h
  | symbolic => rfl

/-- The directive that closes a group gives the stack back. -/
private theorem readOn_closing (condition : Condition)
    (hrest : readOn ⟨true, stack⟩ rest = glue [] more) :
    readOn ⟨true, condition :: stack⟩ ((Branches.closing directive).render ++ rest) =
      glue [] (⟨false, [directive.text "endif"]⟩ :: more) := by
  have htrack : Directive.track (Directive.ofText (directive.content "endif")) (condition :: stack) =
      (stack, .live) := by rw [directive.ofText_endif]; rfl
  have hrun := directive.run_live (by decide) htrack rest
  rw [glue_directive (by decide), ← hrest, ← hrun.readOn_eq, Branches.render, List.append_assoc]
  rfl

/-- A directive that heads a branch which is not spent: the body is read if the branch is live, and
skipped otherwise. -/
private theorem readOn_branch (h : IsWord keyword) {body : Tree} {others : Branches}
    {condition : Condition} (hcondition : condition = settled ((guards.map (·.reading)).take (number + 1)))
    (hspent : isSpent (guards.map (·.reading)) number = false)
    (htrack : Directive.track (Directive.ofText (directive.content keyword)) stack =
      (condition :: stack', .ofCondition condition))
    (hlegible : Legible (body.occurrences.map (.within (.inside guards number))))
    (hbody : ∀ rest more, Legible body.occurrences →
      readOn ⟨true, condition :: stack'⟩ rest = glue [] more →
      readOn ⟨true, condition :: stack'⟩ (body.render ++ rest) =
        glue [] (body.occurrences.map (·.mark) ++ more))
    (hothers : readOn ⟨true, condition :: stack'⟩ (others.render ++ rest) =
      glue [] ((others.occurrences guards (number + 1)).map (·.mark) ++ more)) :
    readOn ⟨true, stack⟩ (directive.text keyword ++ '\n' :: (body.render ++ (others.render ++ rest))) =
      glue [] (⟨false, [directive.text keyword]⟩ ::
        ((body.occurrences.map (Occurrence.within (.inside guards number))).map Occurrence.mark ++
          ((others.occurrences guards (number + 1)).map (·.mark) ++ more))) := by
  rw [glue_directive h]
  by_cases hfails : condition = .fails
  · have hinside : (Place.inside guards number).isDead = true :=
      (isDead_iff _ _).mpr (.inr (hcondition ▸ hfails))
    have hlength : disabledLength true 0 0 (body.render ++ (others.render ++ rest)) = body.render.length := by
      rw [body.disabledLength_render true _ _ _ (inert_within.mp hlegible.inert),
        others.disabledLength_alternative, Nat.zero_add]
    rw [hfails] at htrack hothers
    have hrun := directive.run_disabled h htrack hlength
    rw [List.take_left, List.drop_left] at hrun
    -- A live directive follows, so the skip ends where the run of dead lines does.
    obtain ⟨lines, tail, hhead⟩ := occurrences_live others hspent
    rw [hhead, List.cons_append] at hothers
    rw [glue_dead (isDead_within hinside _), textOf_within, body.textOf_occurrences, hhead, List.cons_append,
      glue_live, ← hothers, hrun.readOn_eq, ← Reading.append_andThen]
    simp
  · have hinside : (Place.inside guards number).isDead = false := by
      have hiff := isDead_iff (guards.map (·.reading)) number
      rw [← isSpent_iff, ← hcondition, hspent] at hiff
      simpa [hfails, Place.isDead] using hiff
    have hlive : Directive.Continuation.ofCondition condition = .live := by
      cases condition with
      | fails => exact absurd rfl hfails
      | holds => rfl
      | symbolic => rfl
    rw [hlive] at htrack
    rw [mark_within_live hinside, ← hbody _ _ ((legible_within hinside).mp hlegible) hothers]
    exact (directive.run_live h htrack _).readOn_eq

/-- Behind a branch that holds the lexer skips to the directive that closes the group. -/
private theorem readOn_spent (h : IsWord keyword) {body : Tree} {others : Branches} {condition : Condition}
    (hspent : isSpent (guards.map (·.reading)) number = true)
    (hread : Directive.ofText (directive.content keyword) = .alternative condition)
    (hbody : Inert body.occurrences) (hothers : Inert (others.occurrences guards (number + 1)))
    (hrest : readOn ⟨true, stack⟩ rest = glue [] more) :
    readOn ⟨true, .holds :: stack⟩
        (directive.text keyword ++ '\n' :: (body.render ++ (others.render ++ rest))) =
      glue [] (⟨false, [directive.text keyword]⟩ ::
        ((body.occurrences.map (Occurrence.within (.inside guards number))).map Occurrence.mark ++
          ((others.occurrences guards (number + 1)).map (·.mark) ++ more))) := by
  have htrack : Directive.track (Directive.ofText (directive.content keyword)) (.holds :: stack) =
      (.holds :: stack, .disabled false) := by rw [hread]; rfl
  have hinside : (Place.inside guards number).isDead = true :=
    (isDead_iff _ _).mpr (.inl ((isSpent_iff _ _).mp hspent))
  have hlength : disabledLength false 0 0 (body.render ++ (others.render ++ rest)) =
      (body.render ++ others.inner).length := by
    rw [body.disabledLength_render false _ _ _ hbody, others.disabledLength_closing _ _ _ _ hothers]
    simp
  have hlines : body.render ++ (others.render ++ rest) =
      body.render ++ others.inner ++ ((Branches.closing others.last).render ++ rest) := by
    rw [others.render_eq]
    simp only [List.append_assoc]
  have hrun := directive.run_disabled h htrack hlength
  rw [hlines, List.take_left, List.drop_left] at hrun
  obtain ⟨dead, hoccurrences, hdead, htext⟩ :=
    others.occurrences_spent guards (number + 1) hspent
  have hlast : (⟨[], true, [others.last.text "endif"]⟩ : Occurrence).mark =
      ⟨false, [others.last.text "endif"]⟩ := rfl
  rw [glue_directive h, hoccurrences, List.map_append, List.append_assoc, List.map_singleton, hlast,
    glue_dead (isDead_within hinside _), glue_dead hdead, textOf_within, body.textOf_occurrences, htext,
    List.singleton_append, glue_live, ← readOn_closing .holds hrest, hlines, hrun.readOn_eq, ← Reading.append_andThen]
  simp

mutual

/-- The lexer reads a tree, and what follows it, as the marks on the lines of the tree say. -/
theorem Tree.readOn_render : ∀ (tree : Tree) (stack : List Condition) (rest : Text) (more : List MarkedLines),
    Legible tree.occurrences → readOn ⟨true, stack⟩ rest = glue [] more →
    readOn ⟨true, stack⟩ (tree.render ++ rest) = glue [] (tree.occurrences.map (·.mark) ++ more)
  | .empty, stack, rest, more, h, hrest => hrest
  | .lines lines tree, stack, rest, more, h, hrest => by
    obtain ⟨hlines, htree⟩ := List.forall_mem_cons.mp h
    obtain ⟨hother, hclosed⟩ := hlines rfl
    have halone : Lexer.Alone {} (Text.unlines (lines.map (·.text))) := by
      refine .start fun text hmem => ⟨?_, hother text hmem⟩
      obtain ⟨line, -, rfl⟩ := List.mem_map.mp hmem
      exact line.unbroken
    have hmark : (⟨[], false, lines.map (·.text)⟩ : Occurrence).mark = ⟨false, lines.map (·.text)⟩ := rfl
    rw [Tree.render, List.append_assoc, Lexer.readOn_lines _ _ halone (hclosed rfl),
      tree.readOn_render stack rest more htree hrest, Tree.occurrences, List.map_cons, List.cons_append,
      hmark, glue]
    rfl
  | .group opening body others tree, stack, rest, more, h, hrest => by
    obtain ⟨-, hlegible⟩ := List.forall_mem_cons.mp h
    obtain ⟨hgroup, htree⟩ := legible_append.mp hlegible
    obtain ⟨hbody, hothers⟩ := legible_append.mp hgroup
    have hcondition : (Guard.condition opening.behind).reading =
        settled (((Guard.condition opening.behind :: others.guards).map (·.reading)).take 1) := by
      cases hreading : (Guard.condition opening.behind).reading <;> simp [settled_cons, hreading]
    have hspent : isSpent ((Guard.condition opening.behind :: others.guards).map (·.reading)) 0 = false := by
      rw [← Bool.not_eq_true, isSpent_iff]
      simp
    have hnext := others.readOn_render _ 1 stack _ _ rfl hspent hothers
      (tree.readOn_render stack rest more htree hrest)
    rw [← hcondition] at hnext
    have hread := readOn_branch (show IsWord "if" by decide) hcondition hspent (by rw [opening.ofText_if]; rfl) hbody
      (fun rest more hlegible hrest => body.readOn_render _ rest more hlegible hrest) hnext
    have hmark : (⟨[], true, [opening.text "if"]⟩ : Occurrence).mark = ⟨false, [opening.text "if"]⟩ := rfl
    simpa [Tree.render, Tree.occurrences, hmark] using hread

private theorem Branches.readOn_render : ∀ (branches : Branches) (guards : List Guard) (number : Nat)
    (stack : List Condition) (rest : Text) (more : List MarkedLines),
    guards.drop number = branches.guards → isSpent (guards.map (·.reading)) (number - 1) = false →
    Legible (branches.occurrences guards number) → readOn ⟨true, stack⟩ rest = glue [] more →
    readOn ⟨true, settled ((guards.map (·.reading)).take number) :: stack⟩ (branches.render ++ rest) =
      glue [] ((branches.occurrences guards number).map (·.mark) ++ more)
  | .closing directive, guards, number, stack, rest, more, hguards, hlive, h, hrest => 
    readOn_closing _ hrest
  | .branch fallback directive body others, guards, number, stack, rest, more, hguards, hlive, h, hrest => by
    obtain ⟨-, hlegible⟩ := List.forall_mem_cons.mp h
    obtain ⟨hbody, hothers⟩ := legible_append.mp hlegible
    have hheading : (⟨[.heading guards number], true, [directive.text (branchKeyword fallback)]⟩ :
        Occurrence).mark = ⟨false, [directive.text (branchKeyword fallback)]⟩ := by
      simp [Occurrence.mark, Occurrence.isDead, Place.isDead, hlive]
    have hword := DirectiveLine.isWord_branchKeyword fallback
    have hread := directive.ofText_branch fallback
    have hguard : (guards.map (·.reading))[number]? = some (branchGuard fallback directive).reading := by
      have hfirst : (guards.drop number)[0]? = some (branchGuard fallback directive) := by
        rw [hguards, Branches.guards, List.getElem?_cons_zero]
      rw [List.getElem?_drop, Nat.add_zero] at hfirst
      rw [List.getElem?_map, hfirst, Option.map_some]
    have htail : guards.drop (number + 1) = others.guards := by
      rw [← List.tail_drop, hguards, Branches.guards, List.tail_cons]
    simp only [Branches.render, Branches.occurrences, List.append_assoc, List.cons_append, List.map_cons,
      List.map_append, hheading]
    by_cases hspent : isSpent (guards.map (·.reading)) number = true
    · rw [(isSpent_iff _ _).mp hspent]
      exact readOn_spent hword hspent hread (inert_within.mp hbody.inert) hothers.inert hrest
    · -- No guard before this one is settled to hold, so it takes part in what the stack tells.
      have htrack := track_alternative (branchGuard fallback directive).reading
        (mt (isSpent_iff _ _).mpr hspent) stack
      rw [← settled_take_succ hguard, ← hread] at htrack
      have hspent : isSpent (guards.map (·.reading)) number = false := Bool.not_eq_true _ |>.mp hspent
      exact readOn_branch hword rfl hspent htrack hbody
        (fun rest more hlegible hrest => body.readOn_render _ rest more hlegible hrest)
        (others.readOn_render guards (number + 1) stack rest more htail hspent hothers hrest)

end

end

theorem Tree.read_render (tree : Tree) (h : Legible tree.occurrences) :
    Lexer.read tree.render = glue [] (tree.occurrences.map (·.mark)) := by
  have hread := tree.readOn_render [] [] [] h (Lexer.readOn_nil _)
  rwa [List.append_nil, List.append_nil] at hread

end SourceOrigin.Conditional
