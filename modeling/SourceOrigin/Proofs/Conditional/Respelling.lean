import SourceOrigin.Proofs.Conditional.Balance
import SourceOrigin.Proofs.Conditional.Hiding
import SourceOrigin.Proofs.Lexer.Steps

/-! Two texts that differ in the spelling of one directive. The lexer takes the same steps up to the line, and again behind
it, if both spellings are read as the same directive; so it hides the same in the other lines. -/
namespace SourceOrigin

section
variable {indent word : Text} (hindent : indent.Inline)
include hindent

theorem Directive.ofLine?_indented : ofLine? (indent ++ '#' :: word) = some (ofText word) := by
  have htrim : Text.trimLeft (indent ++ '#' :: word) = '#' :: word := by
    rw [Text.trimLeft, List.dropWhile_append_of_pos fun c hc => Text.isBlank_of_isInlineBlank (hindent c hc)]
    rfl
  simp only [ofLine?, htrim]

theorem Text.unbroken_indented (h : word.Unbroken) : Unbroken (indent ++ '#' :: word) := by
  intro c hc
  rcases List.mem_append.mp hc with hc | hc
  · exact hindent.unbroken c hc
  · rcases List.mem_cons.mp hc with rfl | hc
    · decide
    · exact h c hc

end

/-- Two spellings of one directive: the lines are alike but for what stands right behind the number sign, and that holds no
star, so no comment ends there. -/
structure Respelling where
  indent : Text
  first : Text
  second : Text
  behind : Text
  indent_inline : indent.Inline
  unbroken : Text.Unbroken (first ++ behind)
  unbroken' : Text.Unbroken (second ++ behind)
  starless : '*' ∉ first
  starless' : '*' ∉ second
  sameDirective : Directive.ofText (first ++ behind) = Directive.ofText (second ++ behind)

namespace Respelling

def line (r : Respelling) : Text := r.indent ++ '#' :: (r.first ++ r.behind)

def symm (r : Respelling) : Respelling :=
  ⟨r.indent, r.second, r.first, r.behind, r.indent_inline, r.unbroken', r.unbroken, r.starless', r.starless, r.sameDirective.symm⟩

abbrev respelt (r : Respelling) : Text := r.symm.line

variable (r : Respelling)

private theorem ofLine?_line : Directive.ofLine? r.line = some (Directive.ofText (r.first ++ r.behind)) :=
  Directive.ofLine?_indented r.indent_inline

private theorem ofLine?_respelt : Directive.ofLine? r.respelt = Directive.ofLine? r.line := by
  rw [ofLine?_line, ofLine?_line, r.sameDirective]
  rfl

private theorem unbroken_line : Text.Unbroken r.line := Text.unbroken_indented r.indent_inline r.unbroken

private theorem line_ne_nil : r.line ≠ [] := by simp [line]

private theorem cleanCut_line (front after : Text) : Text.CleanCut front (r.line ++ after) := by
  obtain ⟨c, more, hline⟩ := List.exists_cons_of_ne_nil r.line_ne_nil
  rintro - hfeed
  rw [hline] at hfeed
  obtain rfl : c = '\n' := Option.some.inj hfeed
  exact absurd (r.unbroken_line '\n' (by simp [hline])) (by decide)

private theorem cleanCut_append {front rest : Text} (h : Text.CleanCut front rest) (after : Text) :
    Text.CleanCut front (rest ++ (r.line ++ after)) := by
  by_cases hnil : rest = []
  · rw [hnil, List.nil_append]
    exact r.cleanCut_line front after
  · exact h.append_right hnil _

/-- The break in front of complete lines is the same whatever the line behind them. -/
theorem breakAt_append {rest : Text} (hne : rest ≠ []) (hhead : ∀ c ∈ rest.head?, Text.isBreak c = true) (after : Text) :
    Text.breakAt (rest ++ (r.line ++ after)) = Text.breakAt rest ∧
      Text.afterBreak (rest ++ (r.line ++ after)) = Text.afterBreak rest ++ (r.line ++ after) := by
  obtain ⟨c, more, rfl⟩ := List.exists_cons_of_ne_nil hne
  obtain ⟨hform, hcut⟩ := Text.breakAt_mem_breakForms (Text.breakAt_ne_nil (hhead c rfl) more)
  have hbreak := Text.breakAt_form hform (r.cleanCut_append hcut after)
  rwa [← List.append_assoc, Text.breakAt_append_afterBreak] at hbreak

/-- A skip that starts before the line ends before it, or passes it; with the other spelling it ends at the same place. -/
theorem skips {toAlternative : Bool} {depth : Nat} {before after skipped left : Text} (hbefore : before.Complete)
    (hafter : ∀ c ∈ after.head?, Text.isBreak c = true)
    (h : Skips toAlternative depth (before ++ (r.line ++ after)) skipped left) :
    (∃ rest, before = skipped ++ rest ∧ left = rest ++ (r.line ++ after) ∧
      Skips toAlternative depth (before ++ (r.respelt ++ after)) skipped (rest ++ (r.respelt ++ after))) ∨
    ∃ more, after = more ++ left ∧ skipped = before ++ (r.line ++ more) ∧
      Skips toAlternative depth (before ++ (r.respelt ++ after)) (before ++ (r.respelt ++ more)) left := by
  obtain ⟨lines, hlines⟩ := hbefore.exists_isLines
  clear hbefore
  induction hlines generalizing depth skipped with
  | nil =>
    have hiff := @Skips.line_iff toAlternative depth _ after skipped left r.unbroken_line hafter (by simp [r.line_ne_nil])
    have hiff' := fun skipped left => @Skips.line_iff toAlternative depth _ after skipped left r.symm.unbroken_line hafter
      (by simp [r.symm.line_ne_nil])
    simp only [List.nil_append, hiff, hiff', r.ofLine?_respelt] at h ⊢
    rcases h with ⟨hstop, rfl, rfl⟩ | ⟨next, behind, hnext, rfl, hskips⟩
    · exact .inl ⟨[], rfl, rfl, .inl ⟨hstop, rfl, rfl⟩⟩
    · refine .inr ⟨Text.breakAt after ++ behind, ?_, rfl, .inr ⟨next, behind, hnext, rfl, hskips⟩⟩
      rw [List.append_assoc, hskips.append_eq, Text.breakAt_append_afterBreak]
  | @cons line brk rest lines hline hform hcut _ ih =>
    -- The first line before is the same in front of both spellings.
    have hiff := fun (r : Respelling) skipped left => @Skips.cons_line_iff toAlternative depth line brk
      (rest ++ (r.line ++ after)) skipped left hline hform (r.cleanCut_append hcut after)
    simp only [List.append_assoc, hiff] at h ⊢
    rcases h with ⟨hstop, rfl, rfl⟩ | ⟨next, behind, hnext, rfl, hskips⟩
    · exact .inl ⟨line ++ (brk ++ rest), rfl, by simp, .inl ⟨hstop, rfl, by simp⟩⟩
    rcases ih hskips with ⟨rest', hrest, hleft, hskips'⟩ | ⟨more, hmore, hskipped, hskips'⟩
    · exact .inl ⟨rest', by simp [hrest], hleft, .inr ⟨next, behind, hnext, rfl, hskips'⟩⟩
    · exact .inr ⟨more, hmore, by rw [hskipped], .inr ⟨next, _, hnext, rfl, hskips'⟩⟩

end Respelling

/-- Two masks agree before and behind stretches of the given lengths, of which the first begins at `start` in both. -/
structure AgreeAround (start length length' : Nat) (mask mask' : List Bool) : Prop where
  before : mask.take start = mask'.take start
  behind : mask.drop (start + length) = mask'.drop (start + length')

namespace AgreeAround
variable {start length length' : Nat} {mask mask' : List Bool}

theorem append_left (h : AgreeAround start length length' mask mask') (front : List Bool) :
    AgreeAround (front.length + start) length length' (front ++ mask) (front ++ mask') := by
  constructor
  · rw [List.take_length_add_append, List.take_length_add_append, h.before]
  · rw [Nat.add_assoc, Nat.add_assoc, List.drop_length_add_append, List.drop_length_add_append, h.behind]

private theorem replicate_append (b : Bool) {total total' : Nat} (hstart : start ≤ total) (hstart' : start ≤ total')
    (hend : total + length' = total' + length) (more : List Bool) :
    AgreeAround start length length' (List.replicate total b ++ more) (List.replicate total' b ++ more) := by
  constructor
  · rw [List.take_append_of_le_length (by simpa using hstart), List.take_append_of_le_length (by simpa using hstart'),
      List.take_replicate, List.take_replicate, Nat.min_eq_left hstart, Nat.min_eq_left hstart']
  · have hbehind : total - (start + length) = total' - (start + length') := by omega
    have hpast : start + length - total = start + length' - total' := by omega
    rw [List.drop_append, List.drop_append, List.drop_replicate, List.drop_replicate, List.length_replicate,
      List.length_replicate, hbehind, hpast]

end AgreeAround

theorem disabledMask_piece (kind : TriviaKind) (text : Text) :
    disabledMask [⟨kind, text⟩] = List.replicate text.length (decide (kind = .disabledText)) := by
  simp [disabledMask]

private theorem disabledMask_disabling (line brk skipped : Text) :
    disabledMask (⟨.directive, line⟩ ::
      (Conditional.optionalPiece .endOfLine brk ++ Conditional.optionalPiece .disabledText skipped)) =
      List.replicate (line ++ brk).length false ++ List.replicate skipped.length true := by
  rw [← List.singleton_append, disabledMask_append, disabledMask_append, disabledMask_piece,
    Conditional.disabledMask_optionalPiece, Conditional.disabledMask_optionalPiece, List.length_append, List.replicate_add,
    List.append_assoc]
  rfl

namespace Respelling
open Lexer
variable (r : Respelling) {state : State} {before after body rest : Text} {step : Step}

def front : Text := r.indent ++ '#' :: r.first

private theorem front_append : r.front ++ r.behind = r.line := by simp [front, line]

private theorem front_ne_nil : r.front ≠ [] := by simp [front]

private theorem starless_front : '*' ∉ r.front := by
  simp only [front, List.mem_append, List.mem_cons, not_or]
  refine ⟨fun hmem => ?_, by decide, r.starless⟩
  exact absurd (r.indent_inline '*' hmem) (by decide)

private theorem head_front (more : Text) : ∀ c ∈ (r.front ++ more).head?, c ≠ '/' := by
  rw [List.head?_append_of_ne_nil _ r.front_ne_nil]
  rintro c hc rfl
  have hmem := List.mem_of_head? hc
  cases hindent : r.indent with
  | nil => simp [front, hindent] at hc
  | cons d indent =>
    obtain rfl : d = '/' := by simpa [front, hindent] using hc
    exact absurd (r.indent_inline '/' (by simp [hindent])) (by decide)

/-- Comments that run over the line to one place close alike. -/
theorem closes_iff (lines behind : Text) :
    (Closes (lines ++ (r.front ++ behind)) ↔ Closes (lines ++ (r.symm.front ++ behind))) ∧
      ("*/".toList <:+: lines ++ (r.front ++ behind) ↔ "*/".toList <:+: lines ++ (r.symm.front ++ behind)) := by
  obtain ⟨hcloses, hholds⟩ := @closes_of_starless behind r.front r.starless_front
  obtain ⟨hcloses', hholds'⟩ := @closes_of_starless behind r.symm.front r.symm.starless_front
  exact closes_append_iff (by simp [r.front_ne_nil]) (by simp [r.symm.front_ne_nil]) (r.head_front behind)
    (r.symm.head_front behind) (hcloses.trans hcloses'.symm) (hholds.trans hholds'.symm) lines

/-- A block comment that starts before the line ends before it, or behind its front; and with the other spelling it ends at
the same place. -/
theorem blockComment_cases (hbefore : before.Complete) (hne : before ≠ [])
    (hbody : Closes body ∨ ¬ "*/".toList <:+: body ∧ rest = [])
    (htext : "/*".toList ++ body ++ rest = before ++ (r.line ++ after)) :
    (∃ more, more ≠ [] ∧ before = "/*".toList ++ body ++ more ∧ rest = more ++ (r.line ++ after) ∧ Closes body) ∨
      ∃ lines behind, before = "/*".toList ++ lines ∧ body = lines ++ (r.front ++ behind) ∧
        "/*".toList ++ (lines ++ (r.symm.front ++ behind)) ++ rest = before ++ (r.respelt ++ after) ∧
        (Closes (lines ++ (r.symm.front ++ behind)) ∨
          ¬ "*/".toList <:+: lines ++ (r.symm.front ++ behind) ∧ rest = []) := by
  rw [List.append_assoc] at htext
  obtain ⟨lines, -, rfl, hrest⟩ := hbefore.exists_behind hne (show Text.Unbroken "/*".toList by decide) htext
  have hcomplete : Text.Complete lines := hbefore.of_append
  have hnotCloses : ¬ Closes lines := by
    rintro ⟨⟨more, rfl⟩, -⟩
    exact absurd (hcomplete '/' (by simp)) Bool.false_ne_true
  rcases List.append_eq_append_iff.mp hrest with ⟨more, rfl, rfl⟩ | ⟨past, rfl, hpast⟩
  · have hcloses : Closes body := hbody.resolve_right fun h => by simp [r.line_ne_nil] at h
    refine .inl ⟨more, ?_, by rw [List.append_assoc], rfl, hcloses⟩
    rintro rfl
    exact hnotCloses (by rwa [List.append_nil])
  · right
    rw [← r.front_append, List.append_assoc] at hpast
    have hbehind : ∃ behind, past = r.front ++ behind ∧ r.behind ++ after = behind ++ rest := by
      rcases List.append_eq_append_iff.mp hpast with ⟨behind, hpast, hbehind⟩ | ⟨more, hfront, hmore⟩
      · exact ⟨behind, hpast, hbehind⟩
      · rcases hbody with hcloses | ⟨-, rfl⟩
        · by_cases hnil : past = []
          · rw [hnil, List.append_nil] at hcloses
            exact absurd hcloses hnotCloses
          have hhead := r.head_front []
          rw [List.append_nil, hfront, List.head?_append_of_ne_nil _ hnil] at hhead
          have hstar : '*' ∉ past := fun hmem => r.starless_front (by simp [hfront, hmem])
          exact absurd hcloses (not_closes_append hnil hhead hstar lines)
        · obtain ⟨rfl, hnil⟩ := List.append_eq_nil_iff.mp hmore.symm
          exact ⟨[], by rw [hfront, List.append_nil, List.append_nil], hnil⟩
    obtain ⟨behind, rfl, hbehind⟩ := hbehind
    obtain ⟨hcloses, hholds⟩ := r.closes_iff lines behind
    refine ⟨lines, behind, rfl, rfl, ?_, by rwa [← hcloses, ← hholds]⟩
    rw [respelt, ← r.symm.front_append]
    simp only [List.append_assoc]
    rw [← hbehind]
    rfl

private theorem reads_unbroken {piece : Text} {pieces : List Trivia} {state' : State} (hbefore : before.Complete)
    (hne : before ≠ [])
    (htext : piece ++ rest = before ++ (r.line ++ after)) (hunbroken : piece.Unbroken) (hpieces : Trivia.texts pieces = piece)
    (hreads : ∀ rest', rest'.head? = rest.head? → Reads state (piece ++ rest') ⟨pieces, rest', state'⟩) :
    ∃ more, before = Trivia.texts pieces ++ more ∧ rest = more ++ (r.line ++ after) ∧
      (more = [] → state'.atLineStart = true) ∧
      Reads state (before ++ (r.respelt ++ after)) ⟨pieces, more ++ (r.respelt ++ after), state'⟩ := by
  obtain ⟨more, hmore, rfl, rfl⟩ := hbefore.exists_behind hne hunbroken htext
  refine ⟨more, by rw [hpieces], rfl, fun hnil => absurd hnil hmore, ?_⟩
  rw [List.append_assoc]
  apply hreads
  rw [List.head?_append_of_ne_nil _ hmore, List.head?_append_of_ne_nil _ hmore]

private theorem reads_endOfLine {brk : Text} (hform : brk ∈ Text.breakForms) (hcut : Text.CleanCut brk rest)
    (hne : before ≠ []) (htext : brk ++ rest = before ++ (r.line ++ after)) :
    ∃ more, before = brk ++ more ∧ rest = more ++ (r.line ++ after) ∧
      Reads state (before ++ (r.respelt ++ after))
        ⟨[⟨.endOfLine, brk⟩], more ++ (r.respelt ++ after), { state with atLineStart := true }⟩ := by
  have hsplit : ∃ more, before = brk ++ more ∧ rest = more ++ (r.line ++ after) := by
    rcases List.append_eq_append_iff.mp htext with hsplit | ⟨past, hbrk, hpast⟩
    · exact hsplit
    · -- The line holds no break.
      cases past with
      | nil => exact ⟨[], by rw [hbrk, List.append_nil, List.append_nil], hpast.symm⟩
      | cons c past =>
        obtain ⟨d, more, hline⟩ := List.exists_cons_of_ne_nil r.line_ne_nil
        rw [hline] at hpast
        obtain rfl : d = c := (List.cons.inj hpast).1
        have hbreak := Text.isBreak_of_mem_breakForms hform d (by simp [hbrk])
        rw [r.unbroken_line d (by simp [hline])] at hbreak
        exact absurd hbreak Bool.false_ne_true
  obtain ⟨more, rfl, rfl⟩ := hsplit
  refine ⟨more, rfl, rfl, ?_⟩
  rw [List.append_assoc]
  exact .endOfLine hform (r.symm.cleanCut_append hcut.of_append_right after)

/-- A disabling directive before the line skips to a place before it, or passes it. -/
theorem reads_disabling {line skipped left : Text} {conditionals : List Condition} {toAlternative : Bool}
    (hbefore : before.Complete) (hne : before ≠ []) (hafter : ∀ c ∈ after.head?, Text.isBreak c = true)
    (hstart : state.atLineStart = true) (hunbroken : Text.Unbroken ('#' :: line))
    (hrest : ∀ c ∈ rest.head?, Text.isBreak c = true)
    (htrack : Directive.track (Directive.ofText line) state.conditionals = (conditionals, .disabled toAlternative))
    (hskips : Skips toAlternative 0 (Text.afterBreak rest) skipped left)
    (htext : '#' :: line ++ rest = before ++ (r.line ++ after)) :
    ∃ brk lines, before = '#' :: line ++ (brk ++ lines) ∧ Text.breakAt rest = brk ∧
      ((∃ more, lines = skipped ++ more ∧ left = more ++ (r.line ++ after) ∧
          Reads state (before ++ (r.respelt ++ after)) ⟨⟨.directive, '#' :: line⟩ ::
            (Conditional.optionalPiece .endOfLine brk ++ Conditional.optionalPiece .disabledText skipped),
            more ++ (r.respelt ++ after), { state with conditionals }⟩) ∨
        ∃ more, skipped = lines ++ (r.line ++ more) ∧
          Reads state (before ++ (r.respelt ++ after)) ⟨⟨.directive, '#' :: line⟩ ::
            (Conditional.optionalPiece .endOfLine brk ++
              Conditional.optionalPiece .disabledText (lines ++ (r.respelt ++ more))),
            left, { state with conditionals }⟩) := by
  obtain ⟨next, hnext, rfl, rfl⟩ := hbefore.exists_behind hne hunbroken htext
  rw [List.head?_append_of_ne_nil _ hnext] at hrest
  obtain ⟨hbreakAt, hafterBreak⟩ := r.breakAt_append hnext hrest after
  obtain ⟨hbreakAt', hafterBreak'⟩ := r.symm.breakAt_append hnext hrest after
  have hlines : (Text.afterBreak next).Complete := by
    rw [← Text.breakAt_append_afterBreak next, ← List.append_assoc] at hbefore
    exact hbefore.of_append
  have hreads : ∀ skipped left, Skips toAlternative 0 (Text.afterBreak next ++ (r.respelt ++ after)) skipped left →
      Reads state ('#' :: line ++ next ++ (r.respelt ++ after)) ⟨⟨.directive, '#' :: line⟩ ::
        (Conditional.optionalPiece .endOfLine (Text.breakAt next) ++ Conditional.optionalPiece .disabledText skipped),
        left, { state with conditionals }⟩ := by
    intro skipped left hskips'
    rw [List.append_assoc, ← hbreakAt']
    refine .disabling hstart hunbroken ?_ htrack (by rwa [hafterBreak'])
    rwa [List.head?_append_of_ne_nil _ hnext]
  refine ⟨Text.breakAt next, Text.afterBreak next, by rw [Text.breakAt_append_afterBreak], hbreakAt, ?_⟩
  rw [hafterBreak] at hskips
  rcases r.skips hlines hafter hskips with ⟨more, hmore, rfl, hskips'⟩ | ⟨more, -, rfl, hskips'⟩
  · exact .inl ⟨more, hmore, rfl, hreads _ _ hskips'⟩
  · exact .inr ⟨more, rfl, hreads _ _ hskips'⟩

/-- A step that starts before the line ends before it, or passes its front; with the other spelling it is alike. -/
theorem reads (hbefore : before.Complete) (hne : before ≠ []) (hafter : ∀ c ∈ after.head?, Text.isBreak c = true)
    (h : Reads state (before ++ (r.line ++ after)) step) :
    (∃ rest, before = Trivia.texts step.pieces ++ rest ∧ step.rest = rest ++ (r.line ++ after) ∧
        (rest = [] → step.state.atLineStart = true) ∧
        Reads state (before ++ (r.respelt ++ after)) ⟨step.pieces, rest ++ (r.respelt ++ after), step.state⟩) ∨
      ∃ pieces, Reads state (before ++ (r.respelt ++ after)) ⟨pieces, step.rest, step.state⟩ ∧
        ∀ more, AgreeAround before.length r.line.length r.respelt.length
          (disabledMask step.pieces ++ more) (disabledMask pieces ++ more) := by
  generalize htext : before ++ (r.line ++ after) = text at h
  cases h with
  | @endOfLine brk rest hform hcut =>
    obtain ⟨more, hmore, hrest, hreads⟩ := r.reads_endOfLine hform hcut hne htext.symm
    exact .inl ⟨more, by simpa using hmore, hrest, fun _ => rfl, hreads⟩
  | @whitespace gap rest hgap hinline hrest =>
    exact .inl (r.reads_unbroken hbefore hne htext.symm hinline.unbroken (by simp)
      fun rest' hhead => .whitespace hgap hinline (hhead ▸ hrest))
  | @lineComment line rest hstart hunbroken hrest =>
    exact .inl (r.reads_unbroken hbefore hne htext.symm hunbroken (by simp)
      fun rest' hhead => .lineComment hstart hunbroken (hhead ▸ hrest))
  | @blockComment body rest hbody =>
    rcases r.blockComment_cases hbefore hne hbody htext.symm with
      ⟨more, hmore, rfl, rfl, hcloses⟩ | ⟨lines, behind, rfl, rfl, hrespelt, hbody'⟩
    · refine .inl ⟨more, by simp, rfl, fun hnil => absurd hnil hmore, ?_⟩
      rw [List.append_assoc]
      exact .blockComment (.inl hcloses)
    · right
      rw [← hrespelt]
      refine ⟨_, .blockComment hbody', fun more => ?_⟩
      rw [disabledMask_piece, disabledMask_piece, decide_eq_false (blockKind_ne_disabledText _),
        decide_eq_false (blockKind_ne_disabledText _)]
      have hlength := congrArg List.length r.front_append
      have hlength' : (r.symm.front ++ r.behind).length = r.symm.line.length := congrArg List.length r.symm.front_append
      simp only [List.length_append] at hlength hlength'
      apply AgreeAround.replicate_append
      all_goals
        simp only [List.length_append, respelt]
        omega
  | @directive line rest conditionals hstart hunbroken hrest htrack =>
    exact .inl (r.reads_unbroken hbefore hne htext.symm hunbroken (by simp)
      fun rest' hhead => .directive hstart hunbroken (hhead ▸ hrest) htrack)
  | @disabling line rest skipped left conditionals toAlternative hstart hunbroken hrest htrack hskips =>
    obtain ⟨brk, lines, hlines, hbrk, ⟨more, rfl, hleft, hreads⟩ | ⟨more, rfl, hreads⟩⟩ :=
      r.reads_disabling hbefore hne hafter hstart hunbroken hrest htrack hskips htext.symm
    · rw [hbrk]
      refine .inl ⟨more, ?_, hleft, fun _ => hstart, hreads⟩
      simp [hlines, Lexer.texts_optionalPiece]
    · rw [hbrk]
      refine .inr ⟨_, hreads, fun mask => ?_⟩
      rw [disabledMask_disabling, disabledMask_disabling, List.append_assoc, List.append_assoc, hlines, ← List.append_assoc,
        List.length_append]
      have hagree := @AgreeAround.replicate_append lines.length r.line.length r.respelt.length true
        (lines ++ (r.line ++ more)).length (lines ++ (r.respelt ++ more)).length (by simp) (by simp) (by simp; omega) mask
      have hshift := hagree.append_left (List.replicate ('#' :: line ++ brk).length false)
      rwa [List.length_replicate] at hshift

end Respelling

namespace Lexer
variable {state : State} {indent word after : Text}

def readBehind (state : State) (directive : Directive) (after : Text) : Reading :=
  let (conditionals, continuation) := Directive.track directive state.conditionals
  match continuation with
  | .live => readOn { state with conditionals } after
  | .disabled toAlternative =>
    let (disabled, rest) := readDisabled toAlternative after
    Reading.andThen (disabled, none) (readOn { state with conditionals } rest)

theorem readOn_directive (hstart : state.atLineStart = true) (hword : word.Unbroken)
    (hafter : ∀ c ∈ after.head?, Text.isBreak c = true) : readOn state ('#' :: word ++ after) =
      Reading.andThen ([⟨.directive, '#' :: word⟩], none) (readBehind state (Directive.ofText word) after) := by
  have hunbroken : Text.Unbroken ('#' :: word) := Text.unbroken_indented Text.inline_nil hword
  rcases htrack : Directive.track (Directive.ofText word) state.conditionals with ⟨conditionals, _ | toAlternative⟩
  · simpa only [readBehind, htrack] using (Reads.directive hstart hunbroken hafter htrack).run.readOn_eq
  · obtain ⟨skipped, left, hskips⟩ := exists_skips toAlternative 0 (Text.afterBreak after)
    rw [(Reads.disabling hstart hunbroken hafter htrack hskips).run.readOn_eq, readBehind, htrack]
    dsimp only
    rw [readDisabled_eq hskips, ← Reading.append_andThen]
    rfl

theorem disabledMask_andThen (pieces : List Trivia) (next : Reading) :
    disabledMask (Reading.andThen (pieces, none) next).1 = disabledMask pieces ++ disabledMask next.1 :=
  disabledMask_append pieces next.1

/-- A line that holds a directive behind its indentation is not hidden, and the directive tells what is hidden behind it. -/
theorem disabledMask_directiveLine (hstart : state.atLineStart = true) (hindent : indent.Inline) (hword : word.Unbroken)
    (hafter : ∀ c ∈ after.head?, Text.isBreak c = true) :
    disabledMask (readOn state (indent ++ '#' :: word ++ after)).1 =
      List.replicate (indent ++ '#' :: word).length false ++
        disabledMask (readBehind state (Directive.ofText word) after).1 := by
  rw [List.append_assoc, (Conditional.run_indent hindent (by simp [Text.isInlineBlank, Text.isBlank]) state).readOn_eq,
    readOn_directive hstart hword hafter, disabledMask_andThen, disabledMask_andThen, disabledMask_piece,
    Conditional.disabledMask_optionalPiece, List.length_append, List.replicate_add, List.append_assoc]
  rfl

end Lexer

namespace Respelling
open Lexer
variable (r : Respelling) {state : State} {before after : Text}

/-- What the lexer hides around the line does not depend on its spelling. -/
theorem agreeAround (hbefore : before.Complete) (hstart : before = [] → state.atLineStart = true)
    (hafter : ∀ c ∈ after.head?, Text.isBreak c = true) :
    AgreeAround before.length r.line.length r.respelt.length
      (disabledMask (readOn state (before ++ (r.line ++ after))).1)
      (disabledMask (readOn state (before ++ (r.respelt ++ after))).1) := by
  induction hlength : before.length using Nat.strongRecOn generalizing state before with
  | _ n ih =>
    subst hlength
    by_cases hnil : before = []
    · subst hnil
      have hmask := fun r : Respelling => disabledMask_directiveLine (hstart rfl) r.indent_inline r.unbroken hafter
      have hsame : Directive.ofText (r.symm.first ++ r.symm.behind) = Directive.ofText (r.first ++ r.behind) :=
        r.sameDirective.symm
      rw [List.nil_append, List.nil_append, line, hmask, respelt, line, hmask, hsame]
      exact ⟨rfl, by simp⟩
    obtain ⟨c, more, rfl⟩ := List.exists_cons_of_ne_nil hnil
    cases hread : readTrivia state c (more ++ (r.line ++ after)) with
    | none =>
      -- A step with the other spelling would be one with this.
      have hnone : readTrivia state c (more ++ (r.respelt ++ after)) = none := by
        rw [Option.eq_none_iff_forall_ne_some]
        intro step hstep
        have hline : ∃ step, Reads state (c :: more ++ (r.line ++ after)) step := by
          rcases r.symm.reads hbefore hnil hafter (readTrivia_eq_some_iff.mp hstep) with ⟨_, -, -, -, h⟩ | ⟨_, h, -⟩
          · exact ⟨_, h⟩
          · exact ⟨_, h⟩
        obtain ⟨step, hline⟩ := hline
        exact absurd (hread.symm.trans (readTrivia_eq_some_iff.mpr hline)) (Option.some_ne_none step).symm
      rw [List.cons_append, List.cons_append, readOn_token hread, readOn_token hnone]
      exact ⟨rfl, by simp [disabledMask]⟩
    | some step =>
      have hreads := readTrivia_eq_some_iff.mp hread
      rcases r.reads hbefore hnil hafter hreads with ⟨rest, hrest, hleft, hstart', hreads'⟩ | ⟨pieces, hreads', hagree⟩
      · have hlength := congrArg List.length hrest
        have hlt := length_readTrivia_lt hread
        rw [hleft] at hlt
        simp only [List.length_append, List.length_cons] at hlength hlt
        have hcomplete : rest.Complete := by
          rw [hrest] at hbefore
          exact hbefore.of_append
        have hagree := (ih rest.length (by rw [List.length_cons]; omega) hcomplete hstart' rfl).append_left
          (disabledMask step.pieces)
        rw [length_disabledMask, ← List.length_append, ← hrest] at hagree
        rwa [List.cons_append, hreads.run.readOn_eq, hreads'.run.readOn_eq, disabledMask_andThen, disabledMask_andThen, hleft]
      · rw [List.cons_append, hreads.run.readOn_eq, hreads'.run.readOn_eq, disabledMask_andThen, disabledMask_andThen]
        exact hagree _

end Respelling

end SourceOrigin
