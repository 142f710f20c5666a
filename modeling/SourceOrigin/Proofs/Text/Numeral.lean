import Mathlib.Data.List.TakeWhile
import SourceOrigin.Text.Decimal

/-! Integer literals: blanks, a sign or none, digits of any script between which single underscores may stand, and blanks.
A text is read as an integer if and only if it is a literal of this integer and has no more than so many digits
(`readInt_eq_ok_iff`). -/
namespace SourceOrigin.Text

/-- The text goes on with digits of these values, up to its end. The flag says that a digit stands before it; only behind
a digit may the text end or go on with an underscore. -/
inductive Digits : Bool → Text → List Nat → Prop where
  | done : Digits true [] []
  | digit {before : Bool} {c : Char} {value : Nat} {rest : Text} {values : List Nat} : digitValue? c = some value →
      Digits true rest values → Digits before (c :: rest) (value :: values)
  | underscore {rest : Text} {values : List Nat} : Digits false rest values → Digits true ('_' :: rest) values

def numberBehind (number : Nat) (values : List Nat) : Nat := values.foldl (fun n value => 10 * n + value) number

inductive Signed : Text → Nat → Int → Prop where
  | bare (n : Nat) : Signed [] n n
  | plus (n : Nat) : Signed ['+'] n n
  | minus (n : Nat) : Signed ['-'] n (-n)

/-- The text is a literal of the integer, with digits of these values. -/
inductive IsLiteral : Text → List Nat → Int → Prop where
  | literal {before sign body after : Text} {values : List Nat} {n : Int} : (∀ c ∈ before, isMargin c = true) →
      Signed sign (numberBehind 0 values) n → Digits false body values → (∀ c ∈ after, isMargin c = true) →
      IsLiteral (before ++ (sign ++ body) ++ after) values n

private theorem digitValue?_underscore : digitValue? '_' = none := by decide

private theorem not_isBlank_zeroDigits :
    ∀ first ∈ zeroDigits, ∀ value < 10, isBlank (Char.ofNat (first + value)) = false := by decide +kernel

private theorem isMargin_of_digitValue? {c : Char} {value : Nat} (h : digitValue? c = some value) : isMargin c = false := by
  obtain ⟨first, hfirst, -⟩ := Option.map_eq_some_iff.mp h
  have hrange := List.find?_some hfirst
  simp only [Bool.and_eq_true, decide_eq_true_eq] at hrange
  have hblank := not_isBlank_zeroDigits first (List.mem_of_find?_eq_some hfirst) (c.toNat - first) (by omega)
  rw [Nat.add_sub_cancel' hrange.1, Char.ofNat_toNat] at hblank
  rw [isMargin, hblank, Bool.false_and]

private theorem digits_nil_iff {before : Bool} {values : List Nat} :
    Digits before [] values ↔ before = true ∧ values = [] := by
  constructor
  · rintro ⟨⟩
    exact ⟨rfl, rfl⟩
  · rintro ⟨rfl, rfl⟩
    exact .done

private theorem digits_cons_iff {before : Bool} {c : Char} {digit : Nat} {rest : Text} {values : List Nat}
    (hvalue : digitValue? c = some digit) :
    Digits before (c :: rest) values ↔ ∃ later, values = digit :: later ∧ Digits true rest later := by
  constructor
  · intro h
    cases h with
    | digit hvalue' hlater =>
      obtain rfl := Option.some.inj (hvalue.symm.trans hvalue')
      exact ⟨_, rfl, hlater⟩
    | underscore => simp [digitValue?_underscore] at hvalue
  · rintro ⟨later, rfl, hlater⟩
    exact .digit hvalue hlater

private theorem digits_mark_iff {before : Bool} {c : Char} {rest : Text} {values : List Nat}
    (hvalue : digitValue? c = none) :
    Digits before (c :: rest) values ↔ (c = '_' ∧ before = true) ∧ Digits false rest values := by
  constructor
  · intro h
    cases h with
    | digit hvalue' => simp [hvalue] at hvalue'
    | underscore hlater => exact ⟨⟨rfl, rfl⟩, hlater⟩
  · rintro ⟨⟨rfl, rfl⟩, hlater⟩
    exact .underscore hlater

/-- Digits are read as the number that they make up, as long as there are not too many. -/
theorem readDigits_eq_ok_iff (value count : Nat) (afterDigit : Bool) (text : Text) (n : Nat) :
    readDigits value count afterDigit text = .ok n ↔
      ∃ values, Digits afterDigit text values ∧ count + values.length ≤ maxDigits ∧ n = numberBehind value values := by
  induction text generalizing value count afterDigit with
  | nil =>
    simp only [digits_nil_iff, and_assoc, exists_and_left, exists_eq_left, List.length_nil, Nat.add_zero]
    cases afterDigit with
    | false => simp [readDigits]
    | true =>
      rw [readDigits, if_neg (by decide)]
      by_cases hmany : maxDigits < count
      · simp [hmany, Nat.not_le.mpr hmany]
      · simp [hmany, Nat.not_lt.mp hmany, numberBehind, eq_comm]
  | cons c rest ih =>
    rw [readDigits]
    cases hvalue : digitValue? c with
    | some digit =>
      simp only [ih, digits_cons_iff hvalue]
      constructor
      · rintro ⟨values, hdigits, hfew, rfl⟩
        exact ⟨digit :: values, ⟨values, rfl, hdigits⟩, by rw [List.length_cons]; omega, rfl⟩
      · rintro ⟨_, ⟨values, rfl, hdigits⟩, hfew, rfl⟩
        exact ⟨values, hdigits, by rw [List.length_cons] at hfew; omega, rfl⟩
    | none =>
      simp only [digits_mark_iff hvalue, Bool.and_eq_true, decide_eq_true_eq]
      by_cases hmark : c = '_' ∧ afterDigit = true
      · simp only [hmark, and_self, if_true, true_and, ih]
      · simp only [hmark, if_false, false_and, exists_false, iff_false]
        split <;> simp

/-- The digits of a literal begin and end with a digit. -/
theorem Digits.ends {text : Text} {values : List Nat} (h : Digits false text values) :
    (∃ c rest value, text = c :: rest ∧ digitValue? c = some value) ∧
      ∃ front c value, text = front ++ [c] ∧ digitValue? c = some value := by
  have hlast {before : Bool} {text : Text} {values : List Nat} (h : Digits before text values) (hne : text ≠ []) :
      ∃ front c value, text = front ++ [c] ∧ digitValue? c = some value := by
    induction h with
    | done => exact absurd rfl hne
    | @digit before c value rest values hvalue hrest ih =>
      by_cases hend : rest = []
      · exact ⟨[], c, value, by rw [hend]; rfl, hvalue⟩
      · obtain ⟨front, last, digit, rfl, hdigit⟩ := ih hend
        exact ⟨c :: front, last, digit, rfl, hdigit⟩
    | @underscore rest values hrest ih =>
      have hend : rest ≠ [] := by
        rintro rfl
        cases hrest
      obtain ⟨front, last, digit, rfl, hdigit⟩ := ih hend
      exact ⟨'_' :: front, last, digit, rfl, hdigit⟩
  cases h with
  | @digit _ c value rest values hvalue hrest =>
    exact ⟨⟨c, rest, value, rfl, hvalue⟩, hlast (@Digits.digit false c value rest values hvalue hrest) (List.cons_ne_nil c rest)⟩

private theorem exists_trimmed (text : Text) : ∃ before after, text = before ++ trimmed text ++ after ∧
    (∀ c ∈ before, isMargin c = true) ∧ ∀ c ∈ after, isMargin c = true := by
  refine ⟨text.takeWhile isMargin, ((text.dropWhile isMargin).reverse.takeWhile isMargin).reverse, ?_, ?_, ?_⟩
  · have hright := List.takeWhile_append_dropWhile (p := isMargin) (l := (text.dropWhile isMargin).reverse)
    rw [← List.reverse_inj, List.reverse_append, List.reverse_reverse] at hright
    rw [List.append_assoc, trimmed, hright, List.takeWhile_append_dropWhile]
  · exact fun c hmem => List.mem_takeWhile_imp hmem
  · exact fun c hmem => List.mem_takeWhile_imp (List.mem_reverse.mp hmem)

private theorem trimmed_append {before body after : Text} (hbefore : ∀ c ∈ before, isMargin c = true)
    (hafter : ∀ c ∈ after, isMargin c = true) (hfirst : ∃ c rest, body = c :: rest ∧ isMargin c = false)
    (hlast : ∃ front c, body = front ++ [c] ∧ isMargin c = false) : trimmed (before ++ body ++ after) = body := by
  obtain ⟨first, rest, hcons, hdigit⟩ := hfirst
  obtain ⟨front, last, hconcat, hdigit'⟩ := hlast
  have hleft : (before ++ body ++ after).dropWhile isMargin = body ++ after := by
    rw [List.append_assoc, List.dropWhile_append_of_pos hbefore, hcons, List.cons_append,
      List.dropWhile_cons_of_neg (Bool.eq_false_iff.mp hdigit)]
  have hright : (body ++ after).reverse.dropWhile isMargin = body.reverse := by
    rw [List.reverse_append, List.dropWhile_append_of_pos fun c hmem => hafter c (List.mem_reverse.mp hmem), hconcat,
      List.reverse_append, List.reverse_singleton, List.singleton_append, List.dropWhile_cons_of_neg (Bool.eq_false_iff.mp hdigit')]
  rw [trimmed, hleft, hright, List.reverse_reverse]

private theorem exists_of_map_eq_ok {ε α β : Type} {f : α → β} {result : Except ε α} {b : β} (h : result.map f = .ok b) :
    ∃ a, result = .ok a ∧ f a = b := by
  cases result with
  | error => simp [Except.map] at h
  | ok a => exact ⟨a, rfl, Except.ok.inj h⟩

private theorem digitValue?_sign {sign : Text} {number : Nat} {n : Int} (h : Signed sign number n) :
    ∀ c ∈ sign, digitValue? c = none ∧ isMargin c = false := by
  intro c hmem
  cases h with
  | bare => exact absurd hmem List.not_mem_nil
  | plus =>
    obtain rfl := List.mem_singleton.mp hmem
    decide
  | minus =>
    obtain rfl := List.mem_singleton.mp hmem
    decide

private theorem readInt_eq_ok_iff_signed (text : Text) (n : Int) :
    readInt text = .ok n ↔ ∃ sign body number, trimmed text = sign ++ body ∧ Signed sign number n ∧
      readDigits 0 0 false body = .ok number := by
  unfold readInt
  constructor
  · intro h
    split at h
    · next body htext =>
      obtain ⟨number, hbody, rfl⟩ := exists_of_map_eq_ok h
      exact ⟨['-'], body, number, htext, .minus number, hbody⟩
    · next body htext =>
      obtain ⟨number, hbody, rfl⟩ := exists_of_map_eq_ok h
      exact ⟨['+'], body, number, htext, .plus number, hbody⟩
    · obtain ⟨number, hbody, rfl⟩ := exists_of_map_eq_ok h
      exact ⟨[], _, number, rfl, .bare number, hbody⟩
  · rintro ⟨sign, body, number, htext, hsign, hbody⟩
    rw [htext]
    cases hsign with
    | bare =>
      obtain ⟨values, hdigits, -⟩ := (readDigits_eq_ok_iff 0 0 false body number).mp hbody
      obtain ⟨⟨c, rest, value, rfl, hvalue⟩, -⟩ := hdigits.ends
      rw [List.nil_append]
      split
      · next heq =>
        obtain ⟨rfl, -⟩ := List.cons.inj heq
        simp [(digitValue?_sign (.minus 0) '-' List.mem_cons_self).1] at hvalue
      · next heq =>
        obtain ⟨rfl, -⟩ := List.cons.inj heq
        simp [(digitValue?_sign (.plus 0) '+' List.mem_cons_self).1] at hvalue
      · rw [hbody]
        rfl
    | plus =>
      simp only [List.singleton_append, hbody]
      rfl
    | minus =>
      simp only [List.singleton_append, hbody]
      rfl

/-- A text is read as an integer if and only if it is a literal of it, and of no more digits than can be read. -/
theorem readInt_eq_ok_iff (text : Text) (n : Int) :
    readInt text = .ok n ↔ ∃ values, IsLiteral text values n ∧ values.length ≤ maxDigits := by
  rw [readInt_eq_ok_iff_signed]
  constructor
  · rintro ⟨sign, body, number, htext, hsign, hbody⟩
    obtain ⟨values, hdigits, hfew, rfl⟩ := (readDigits_eq_ok_iff 0 0 false body number).mp hbody
    obtain ⟨before, after, hwhole, hbefore, hafter⟩ := exists_trimmed text
    rw [hwhole, htext]
    exact ⟨values, .literal hbefore hsign hdigits hafter, by simpa using hfew⟩
  · rintro ⟨values, hliteral, hfew⟩
    cases hliteral with
    | @literal before sign body after _ _ hbefore hsign hdigits hafter =>
      obtain ⟨⟨c, rest, value, hbody, hvalue⟩, front, last, value', hbody', hvalue'⟩ := hdigits.ends
      refine ⟨sign, body, numberBehind 0 values, ?_, hsign, ?_⟩
      · refine trimmed_append hbefore hafter ?_ ⟨sign ++ front, last, by rw [hbody', List.append_assoc],
          isMargin_of_digitValue? hvalue'⟩
        cases sign with
        | nil => exact ⟨c, rest, hbody, isMargin_of_digitValue? hvalue⟩
        | cons first more => exact ⟨first, more ++ body, rfl, (digitValue?_sign hsign first List.mem_cons_self).2⟩
      · exact (readDigits_eq_ok_iff 0 0 false body _).mpr ⟨values, hdigits, by simpa using hfew, rfl⟩

/-! ### The number of digits -/

theorem Digits.length_eq {before : Bool} {text : Text} {values : List Nat} (h : Digits before text values) :
    values.length = text.countP isDigit := by
  induction h with
  | done => rfl
  | digit hvalue _ ih => rw [List.length_cons, ih, List.countP_cons_of_pos (by simp [isDigit, hvalue])]
  | underscore _ ih => rw [ih, List.countP_cons_of_neg (by decide)]

/-- A literal has a value for each of its digits. -/
theorem IsLiteral.length_eq {text : Text} {values : List Nat} {n : Int} (h : IsLiteral text values n) :
    values.length = text.countP isDigit := by
  have hblank {margin : Text} (hmargin : ∀ c ∈ margin, isMargin c = true) : margin.countP isDigit = 0 := by
    refine List.countP_eq_zero.mpr fun c hmem hdigit => ?_
    obtain ⟨value, hvalue⟩ := Option.isSome_iff_exists.mp hdigit
    simpa [isMargin_of_digitValue? hvalue] using hmargin c hmem
  cases h with
  | @literal before sign body after _ _ hbefore hsign hdigits hafter =>
    have hmark : sign.countP isDigit = 0 := by
      refine List.countP_eq_zero.mpr fun c hmem => ?_
      simp [isDigit, (digitValue?_sign hsign c hmem).1]
    simp only [List.countP_append, hblank hbefore, hblank hafter, hmark, hdigits.length_eq, Nat.zero_add, Nat.add_zero]

end SourceOrigin.Text
