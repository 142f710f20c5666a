import SourceOrigin.Proofs.Conditional.Settled
import Mathlib.Data.List.DropRight

/-! Which branches a host compiles. The condition of a branch is an expression over the symbols that the host
defines, and the branch is selected if its condition is true and those before it are false. A condition may
well read as known by its first word and have another value as a whole. -/
namespace SourceOrigin.Conditional

inductive Operator where
  | disjunction
  | conjunction
  | equal
  | unequal
  | negation
  deriving DecidableEq, Repr

inductive Lexeme where
  | word (text : Text)
  | operator (operator : Operator)
  | opening
  | closing
  deriving DecidableEq, Repr

def endedWord (word : Text) : List Lexeme := if word = [] then [] else [.word word]

/-- The lexemes of a written condition behind the word that has begun; `none` if half an operator occurs. -/
def lexemes (word : Text) : Text → Option (List Lexeme)
  | [] => some (endedWord word)
  | '|' :: '|' :: rest => (lexemes [] rest).map (endedWord word ++ .operator .disjunction :: ·)
  | '&' :: '&' :: rest => (lexemes [] rest).map (endedWord word ++ .operator .conjunction :: ·)
  | '=' :: '=' :: rest => (lexemes [] rest).map (endedWord word ++ .operator .equal :: ·)
  | '!' :: '=' :: rest => (lexemes [] rest).map (endedWord word ++ .operator .unequal :: ·)
  | c :: rest =>
    if c = '!' then (lexemes [] rest).map (endedWord word ++ .operator .negation :: ·)
    else if c = '(' then (lexemes [] rest).map (endedWord word ++ .opening :: ·)
    else if c = ')' then (lexemes [] rest).map (endedWord word ++ .closing :: ·)
    else if c = '|' || c = '&' || c = '=' then none
    else if Text.isBlank c then (lexemes [] rest).map (endedWord word ++ ·)
    else lexemes (word ++ [c]) rest

inductive Operand where
  | value (value : Bool)
  | operator (operator : Operator)
  deriving DecidableEq, Repr

/-- Comparisons group to the left, and a negation concerns what stands right behind it. What stands before
is given as a function of the value that comes next. -/
def comparison (before : Bool → Bool) : List Operand → Option Bool
  | [.value value] => some (before value)
  | .operator .negation :: rest => comparison (fun value => before !value) rest
  | .value value :: .operator .equal :: rest => comparison (before value == ·) rest
  | .value value :: .operator .unequal :: rest => comparison (before value != ·) rest
  | _ => none

def expression (operands : List Operand) : Option Bool := do
  let conjunction (operands : List Operand) : Option Bool := do
    let values ← (operands.splitOn (.operator .conjunction)).mapM (comparison id)
    return values.all id
  let values ← (operands.splitOn (.operator .disjunction)).mapM conjunction
  return values.any id

def wordValue (defined : Text → Bool) (word : Text) : Bool :=
  if word = "true".toList then true else if word = "false".toList then false else defined word

/-- The value of an expression: `operands` have been read since the innermost open parenthesis, and `outer`
before those that are open. -/
def evaluate (defined : Text → Bool) (outer : List (List Operand)) (operands : List Operand) :
    List Lexeme → Option Bool
  | [] => if outer = [] then expression operands else none
  | .word word :: rest => evaluate defined outer (operands ++ [.value (wordValue defined word)]) rest
  | .operator operator :: rest => evaluate defined outer (operands ++ [.operator operator]) rest
  | .opening :: rest => evaluate defined (operands :: outer) [] rest
  | .closing :: rest =>
    match outer with
    | [] => none
    | before :: outer => do
      let value ← expression operands
      evaluate defined outer (before ++ [.value value]) rest

def beforeComment : Text → Text
  | [] => []
  | '/' :: '/' :: _ => []
  | c :: rest => c :: beforeComment rest

/-- The value of a guard under the symbols that the host defines; `none` if it is not well formed. -/
def Guard.value (defined : Text → Bool) : Guard → Option Bool
  | .otherwise => some true
  | .condition written => do evaluate defined [] [] (← lexemes [] (beforeComment written))

def selects (defined : Text → Bool) (guards : List Guard) (branch : Nat) : Prop :=
  guards[branch]?.bind (·.value defined) = some true ∧
    ∀ before < branch, guards[before]?.bind (·.value defined) = some false

instance (defined : Text → Bool) (guards : List Guard) (branch : Nat) : Decidable (selects defined guards branch) :=
  inferInstanceAs (Decidable (_ ∧ _))

/-- A directive that heads a branch stands in no branch of the group. -/
def Place.IsSelected (defined : Text → Bool) : Place → Prop
  | .inside guards branch => selects defined guards branch
  | .heading _ _ => False

instance (defined : Text → Bool) : ∀ place : Place, Decidable (place.IsSelected defined)
  | .inside guards branch => inferInstanceAs (Decidable (selects defined guards branch))
  | .heading _ _ => inferInstanceAs (Decidable False)

def Occurrence.IsSelected (defined : Text → Bool) (occurrence : Occurrence) : Prop :=
  ∀ place ∈ occurrence.places, place.IsSelected defined

instance (defined : Text → Bool) (occurrence : Occurrence) : Decidable (occurrence.IsSelected defined) :=
  inferInstanceAs (Decidable (∀ _ ∈ _, _))

def Place.guards : Place → List Guard
  | .inside guards _ => guards
  | .heading guards _ => guards

/-- By its first word the guard is known, and has the other value. -/
def Guard.IsMisread (defined : Text → Bool) (guard : Guard) : Prop :=
  guard.reading = .fails ∧ guard.value defined = some true ∨
    guard.reading = .holds ∧ guard.value defined = some false

/-- A guard is misread up to the branch, where those before it read as failing. -/
def Place.IsMisread (defined : Text → Bool) : Place → Prop
  | .inside guards branch => ∃ number ≤ branch, (∃ guard ∈ guards[number]?, guard.IsMisread defined) ∧
      ∀ before < number, guards[before]?.map (·.reading) = some .fails
  | .heading _ _ => False

/-- The condition is a literal when it is nothing else. A fallback has no condition. -/
def Guard.IsLiteral : Guard → Prop
  | .otherwise => True
  | .condition written => ∃ value : Bool,
    ((beforeComment written).dropWhile Text.isBlank).rdropWhile Text.isBlank = (toString value).toList

private theorem beforeComment_prefix (text : Text) : beforeComment text <+: text := by
  fun_induction beforeComment text with
  | case1 => exact List.nil_prefix
  | case2 => exact List.nil_prefix
  | case3 c rest _ ih => exact List.cons_prefix_cons.mpr ⟨rfl, ih⟩

private theorem lexemes_blank {c : Char} (h : Text.isBlank c = true) (word rest : Text) :
    lexemes word (c :: rest) = (lexemes [] rest).map (endedWord word ++ ·) := by
  have hne : ∀ d : Char, Text.isBlank d = false → c ≠ d := by
    rintro d hd rfl
    simp [h] at hd
  have hother : ¬ (c = '|' || c = '&' || c = '=') = true := by
    simp [hne '|' (by decide), hne '&' (by decide), hne '=' (by decide)]
  rw [lexemes.eq_def]
  split
  · simp_all
  · next heq => exact absurd (List.cons.inj heq).1 (hne _ (by decide))
  · next heq => exact absurd (List.cons.inj heq).1 (hne _ (by decide))
  · next heq => exact absurd (List.cons.inj heq).1 (hne _ (by decide))
  · next heq => exact absurd (List.cons.inj heq).1 (hne _ (by decide))
  · next heq =>
    obtain ⟨rfl, rfl⟩ := List.cons.inj heq
    rw [if_neg (hne _ (by decide)), if_neg (hne _ (by decide)), if_neg (hne _ (by decide)), if_neg hother, if_pos h]

private theorem lexemes_blanks {blanks : Text} (h : ∀ c ∈ blanks, Text.isBlank c = true) (rest : Text) :
    lexemes [] (blanks ++ rest) = lexemes [] rest := by
  induction blanks with
  | nil => rfl
  | cons c blanks ih =>
    obtain ⟨hc, hblanks⟩ := List.forall_mem_cons.mp h
    rw [List.cons_append, lexemes_blank hc, ih hblanks]
    simp [endedWord]

private theorem lexemes_word (word : Text) (hword : word ≠ []) {blanks : Text}
    (h : ∀ c ∈ blanks, Text.isBlank c = true) :
    lexemes word blanks = some [.word word] := by
  cases blanks with
  | nil => simp [lexemes, endedWord, hword]
  | cons c blanks =>
    obtain ⟨hc, hblanks⟩ := List.forall_mem_cons.mp h
    have hrest := lexemes_blanks hblanks []
    rw [List.append_nil] at hrest
    rw [lexemes_blank hc, hrest]
    simp [lexemes, endedWord, hword]

private theorem value_literal {written before after : Text} {value : Bool}
    (hbefore : ∀ c ∈ before, Text.isBlank c = true) (hafter : ∀ c ∈ after, Text.isBlank c = true)
    (h : beforeComment written = before ++ ((toString value).toList ++ after)) (defined : Text → Bool) :
    (Guard.condition written).value defined = some value := by
  have hlexemes : lexemes [] (beforeComment written) = some [.word (toString value).toList] := by
    rw [h, lexemes_blanks hbefore]
    cases value with
    | false => exact lexemes_word "false".toList (by decide) hafter
    | true => exact lexemes_word "true".toList (by decide) hafter
  rw [Guard.value, hlexemes]
  cases value <;> rfl

private theorem reading_literal {written before after : Text} {value : Bool}
    (hbefore : ∀ c ∈ before, Text.isBlank c = true)
    (h : beforeComment written = before ++ ((toString value).toList ++ after)) :
    (Guard.condition written).reading ≠ if value then .fails else .holds := by
  obtain ⟨rest, hrest⟩ := beforeComment_prefix written
  have hwritten : written = before ++ ((toString value).toList ++ (after ++ rest)) := by
    rw [← hrest, h]
    simp
  have hfirst : Text.firstWord written =
      (toString value).toList ++ (after ++ rest).takeWhile (!Text.isBlank ·) := by
    rw [Text.firstWord, Text.trimLeft, hwritten, List.dropWhile_append_of_pos hbefore]
    cases value
    all_goals rfl
  have hhead : (Text.firstWord written).head? = some (if value then 't' else 'f') := by
    rw [hfirst]
    cases value <;> rfl
  have hword : Text.firstWord written ≠ [] := by
    intro hnil
    rw [hnil] at hhead
    simp at hhead
  rw [Guard.reading, Text.head?_words, if_neg hword]
  cases value with
  | false =>
    have hne : Text.firstWord written ≠ "true".toList := by
      intro heq
      exact absurd (heq ▸ hhead) (by decide)
    rw [if_neg (mt Option.some.inj hne)]
    split <;> simp
  | true =>
    have hne : Text.firstWord written ≠ "false".toList := by
      intro heq
      exact absurd (heq ▸ hhead) (by decide)
    rw [if_neg (mt Option.some.inj hne)]
    split <;> simp

theorem Guard.IsLiteral.not_isMisread {guard : Guard} (h : guard.IsLiteral) (defined : Text → Bool) :
    ¬ guard.IsMisread defined := by
  cases guard with
  | otherwise => simp [IsMisread, reading, value]
  | condition written =>
    obtain ⟨value, hvalue⟩ := h
    have hwritten : beforeComment written = (beforeComment written).takeWhile Text.isBlank ++
        ((toString value).toList ++ ((beforeComment written).dropWhile Text.isBlank).rtakeWhile Text.isBlank) := by
      rw [← hvalue, List.rdropWhile_append_rtakeWhile, List.takeWhile_append_dropWhile]
    have hbefore : ∀ c ∈ (beforeComment written).takeWhile Text.isBlank, Text.isBlank c = true :=
      fun c hc => List.mem_takeWhile_imp hc
    have hafter : ∀ c ∈ ((beforeComment written).dropWhile Text.isBlank).rtakeWhile Text.isBlank,
        Text.isBlank c = true :=
      fun c hc => List.mem_rtakeWhile_imp hc
    have hreading := reading_literal hbefore hwritten
    rw [IsMisread, value_literal hbefore hafter hwritten]
    rintro (⟨hfails, htrue⟩ | ⟨hholds, hfalse⟩)
    · obtain rfl := Option.some.inj htrue
      exact hreading hfails
    · obtain rfl := Option.some.inj hfalse
      exact hreading hholds

/-- Where the conditions that are known by their first word are literals, nothing is misread. -/
theorem Place.not_isMisread {place : Place} (h : ∀ guard ∈ place.guards, guard.reading ≠ .symbolic → guard.IsLiteral)
    (defined : Text → Bool) : ¬ place.IsMisread defined := by
  cases place with
  | inside guards branch =>
    rintro ⟨number, -, ⟨guard, hguard, hmisread⟩, -⟩
    refine (h guard (List.mem_of_getElem? hguard) ?_).not_isMisread defined hmisread
    rcases hmisread with ⟨hreading, -⟩ | ⟨hreading, -⟩
    all_goals simp [hreading]
  | heading guards branch => exact id

section
variable {defined : Text → Bool} {guards : List Guard} {branch : Nat}

/-- A selected branch is dead where a guard is misread, and only there. -/
theorem isDead_iff_isMisread (h : selects defined guards branch) :
    (Place.inside guards branch).isDead = true ↔ (Place.inside guards branch).IsMisread defined := by
  obtain ⟨htrue, hfalse⟩ := h
  obtain ⟨guard, hguard, hvalue⟩ := Option.bind_eq_some_iff.mp htrue
  have hreading : ∀ number : Nat, (guards.map (·.reading))[number]? = guards[number]?.map (·.reading) :=
    fun number => List.getElem?_map
  rw [Place.isDead, isDead_iff, Place.IsMisread]
  constructor
  · rintro (hholds | hfails)
    -- The guard that reads as holding stands before the selected branch, so it is false.
    · obtain ⟨number, hread, hbefore⟩ := exists_of_settled_holds hholds
      have hlt : number < branch := by
        by_contra hge
        rw [List.getElem?_take, if_neg hge] at hread
        simp at hread
      rw [List.getElem?_take_of_lt hlt, hreading] at hread
      obtain ⟨misread, hmisread, hholds⟩ := Option.map_eq_some_iff.mp hread
      have hvalue : misread.value defined = some false := by simpa [hmisread] using hfalse number hlt
      refine ⟨number, hlt.le, ⟨misread, hmisread, .inr ⟨hholds, hvalue⟩⟩, fun before hearlier => ?_⟩
      have hfails := hbefore before hearlier
      rwa [List.getElem?_take_of_lt (hearlier.trans hlt), hreading] at hfails
    -- The guard of the branch itself reads as failing, but it is true.
    · have hall : ∀ number ≤ branch, ∀ guard ∈ guards[number]?, guard.reading = .fails := by
        intro number hle guard hguard
        refine fails_of_settled_fails hfails _ (List.mem_of_getElem? (i := number) ?_)
        rw [List.getElem?_take_of_lt (Nat.lt_succ_of_le hle), hreading, Option.mem_def.mp hguard, Option.map_some]
      refine ⟨branch, le_rfl, ⟨guard, hguard, .inl ⟨hall branch le_rfl guard hguard, hvalue⟩⟩, ?_⟩
      intro before hlt
      obtain ⟨earlier, hearlier, -⟩ := Option.bind_eq_some_iff.mp (hfalse before hlt)
      rw [hearlier, Option.map_some, hall before hlt.le earlier hearlier]
  · rintro ⟨number, hle, ⟨misread, hmisread, hkind⟩, hbefore⟩
    have hsettled := settled_take_of_fails fun before hlt => (hreading before).trans (hbefore before hlt)
    have hread : (guards.map (·.reading))[number]? = some misread.reading := by
      rw [hreading, Option.mem_def.mp hmisread, Option.map_some]
    have hnext := settled_take_succ hread
    rw [if_pos hsettled] at hnext
    rcases hkind with ⟨hfails, hnow⟩ | ⟨hholds, hnow⟩
    · obtain rfl : number = branch := by
        by_contra hne
        have hvalue := hfalse number (Nat.lt_of_le_of_ne hle hne)
        simp [Option.mem_def.mp hmisread, hnow] at hvalue
      exact .inr (hnext.trans hfails)
    · have hlt : number < branch := by
        refine Nat.lt_of_le_of_ne hle ?_
        rintro rfl
        obtain rfl := Option.some.inj (hmisread.symm.trans hguard)
        simp [hnow] at hvalue
      rw [hholds, ← isSpent_iff] at hnext
      exact .inl ((isSpent_iff _ _).mp (isSpent_mono hlt hnext))

theorem Place.isDead_iff_isMisread {place : Place} (h : place.IsSelected defined) :
    place.isDead = true ↔ place.IsMisread defined := by
  cases place with
  | inside guards branch => exact Conditional.isDead_iff_isMisread h
  | heading guards branch => exact h.elim

end

end SourceOrigin.Conditional
