import Mathlib.Data.List.TakeWhile
import SourceOrigin.Report.Json

/-! Reading JSON documents: numbers without a sign, a fraction or an exponent, strings in UTF-16 code units, arrays of strings,
and objects, with blanks anywhere between them. A document that is written from a value is read as this value
(`read?_render`). -/
namespace SourceOrigin.JsonValue

/-! ### The reader -/

def isSpace (c : Char) : Bool := c = ' ' || c = '\t' || c = '\n' || c = '\r'

def skip (text : Text) : Text := text.dropWhile isSpace

def unitsOf (c : Char) : List Nat :=
  let n := c.toNat
  if n < 0x10000 then [n] else [0xD800 + (n - 0x10000) / 0x400, 0xDC00 + (n - 0x10000) % 0x400]

/-- The text of code units. No text has a surrogate that stands alone. -/
def ofUnits? : List Nat → Option Text
  | [] => some []
  | unit :: rest =>
    if unit < 0xD800 || 0xE000 ≤ unit then (ofUnits? rest).map (Char.ofNat unit :: ·)
    else match rest with
      | low :: rest =>
        if unit < 0xDC00 && 0xDC00 ≤ low && low < 0xE000 then
          (ofUnits? rest).map (Char.ofNat (0x10000 + (unit - 0xD800) * 0x400 + (low - 0xDC00)) :: ·)
        else none
      | [] => none

def hexValue? (c : Char) : Option Nat :=
  if '0' ≤ c && c ≤ '9' then some (c.toNat - '0'.toNat)
  else if 'a' ≤ c && c ≤ 'f' then some (c.toNat - 'a'.toNat + 10)
  else if 'A' ≤ c && c ≤ 'F' then some (c.toNat - 'A'.toNat + 10)
  else none

def escapedUnit? : Char → Option Nat
  | '"' => some 0x22
  | '\\' => some 0x5C
  | '/' => some 0x2F
  | 'b' => some 0x08
  | 'f' => some 0x0C
  | 'n' => some 0x0A
  | 'r' => some 0x0D
  | 't' => some 0x09
  | _ => none

def readUnits? : Text → Option (List Nat × Text)
  | [] => none
  | '"' :: rest => some ([], rest)
  | '\\' :: 'u' :: a :: b :: c :: d :: rest => do
    let unit := 0x1000 * (← hexValue? a) + 0x100 * (← hexValue? b) + 0x10 * (← hexValue? c) + (← hexValue? d)
    let (units, rest) ← readUnits? rest
    return (unit :: units, rest)
  | '\\' :: letter :: rest => do
    let unit ← escapedUnit? letter
    let (units, rest) ← readUnits? rest
    return (unit :: units, rest)
  | c :: rest =>
    if c = '\\' || c.toNat < 0x20 then none
    else (readUnits? rest).map fun (units, rest) => (unitsOf c ++ units, rest)

def readString? : Text → Option (Text × Text)
  | '"' :: rest => do
    let (units, rest) ← readUnits? rest
    return (← ofUnits? units, rest)
  | _ => none

/-- Reads the digits that the text begins with. No number begins with a needless zero. -/
def readNumber? (text : Text) : Option (Nat × Text) :=
  let digits := text.takeWhile Char.isDigit
  let n := Nat.ofDigitChars 10 digits 0
  if Text.decimal n = digits then some (n, text.drop digits.length) else none

section
variable {α : Type} (item : Text → Option (α × Text)) (close : Char)

/-- Reads what is left of some items behind one of them: a comma and at least one, or the closing bracket. -/
def readRest? : Nat → Text → Option (List α × Text)
  | 0, _ => none
  | bound + 1, text =>
    if (skip text).head? = some ',' then do
      let (first, rest) ← item (skip (skip text).tail)
      let (items, rest) ← readRest? bound rest
      return (first :: items, rest)
    else if (skip text).head? = some close then some ([], (skip text).tail)
    else none

def readItems? (bound : Nat) (text : Text) : Option (List α × Text) :=
  if (skip text).head? = some close then some ([], (skip text).tail)
  else do
    let (first, rest) ← item (skip text)
    let (items, rest) ← readRest? item close bound rest
    return (first :: items, rest)

end

def readMember? (value : Text → Option (JsonValue × Text)) (text : Text) : Option ((Text × JsonValue) × Text) := do
  let (name, rest) ← readString? text
  match skip rest with
  | ':' :: rest =>
    let (read, rest) ← value (skip rest)
    return ((name, read), rest)
  | _ => none

/-- Reads the value that the text begins with. No list in it is longer than the bound, and none of its parts lies deeper. -/
def readValue? : Nat → Text → Option (JsonValue × Text)
  | 0, _ => none
  | _ + 1, '"' :: rest => (readString? ('"' :: rest)).map fun (text, rest) => (.string text, rest)
  | bound + 1, '[' :: rest => (readItems? readString? ']' bound rest).map fun (items, rest) => (.array items, rest)
  | bound + 1, '\x7b' :: rest =>
    (readItems? (readMember? (readValue? bound)) '\x7d' bound rest).map fun (members, rest) => (.object members, rest)
  | _ + 1, text => (readNumber? text).map fun (n, rest) => (.number n, rest)

def read? (text : Text) : Option JsonValue := do
  let (value, rest) ← readValue? text.length (skip text)
  if (skip rest).isEmpty then some value else none

/-! ### Strings -/

private theorem unitsOf_of_lt {c : Char} (h : c.toNat < 0x10000) : unitsOf c = [c.toNat] := if_pos h

private theorem unitsOf_of_ge {c : Char} (h : ¬ c.toNat < 0x10000) :
    unitsOf c = [0xD800 + (c.toNat - 0x10000) / 0x400, 0xDC00 + (c.toNat - 0x10000) % 0x400] := if_neg h

private theorem toNat_cases (c : Char) : c.toNat < 0xD800 ∨ 0xDFFF < c.toNat ∧ c.toNat < 0x110000 := c.valid

private theorem ofUnits?_unitsOf (c : Char) (units : List Nat) :
    ofUnits? (unitsOf c ++ units) = (ofUnits? units).map (c :: ·) := by
  have hcode := toNat_cases c
  have hc : Char.ofNat c.toNat = c := Char.ofNat_toNat c
  by_cases hbasic : c.toNat < 0x10000
  · have hwhole : (c.toNat < 0xD800 || 0xE000 ≤ c.toNat) = true := by simp; omega
    rw [unitsOf_of_lt hbasic, List.singleton_append, ofUnits?.eq_def]
    simp only [hwhole, if_true, hc]
  · have hjoined : 0x10000 + (0xD800 + (c.toNat - 0x10000) / 0x400 - 0xD800) * 0x400 +
        (0xDC00 + (c.toNat - 0x10000) % 0x400 - 0xDC00) = c.toNat := by omega
    rw [unitsOf_of_ge hbasic, List.cons_append, List.singleton_append, ofUnits?, if_neg (by simp; omega),
      if_pos (by simp; omega), hjoined, hc]

private theorem ofUnits?_flatMap (text : Text) : ofUnits? (text.flatMap unitsOf) = some text := by
  induction text with
  | nil => rfl
  | cons c rest ih => rw [List.flatMap_cons, ofUnits?_unitsOf, ih, Option.map_some]

private theorem hexValue?_digitChar : ∀ value < 16, hexValue? (Nat.digitChar value) = some value := by decide

private theorem hexadecimal_succ {width : Nat} (hwidth : 0 < width) (n : Nat) :
    Text.hexadecimal (width + 1) n = Text.hexadecimal width (n / 16) ++ [Nat.digitChar (n % 16)] := by
  unfold Text.hexadecimal
  dsimp only
  rw [Nat.toDigits_eq_if (by decide)]
  split
  · next hlt =>
    have hzeros : List.replicate (width - 1) '0' ++ ['0'] = List.replicate width '0' := by
      rw [← List.replicate_succ', Nat.sub_add_cancel hwidth]
    have hzero : Nat.toDigits 16 0 = ['0'] := rfl
    rw [Nat.div_eq_of_lt hlt, Nat.mod_eq_of_lt hlt, hzero, List.length_singleton, List.length_singleton, hzeros,
      Nat.add_sub_cancel]
  · rw [List.length_append, List.length_singleton, Nat.add_sub_add_right, List.append_assoc]

private theorem hexadecimal_four {n : Nat} (h : n < 0x10000) :
    Text.hexadecimal 4 n = [Nat.digitChar (n / 0x1000), Nat.digitChar (n / 0x100 % 16), Nat.digitChar (n / 0x10 % 16),
      Nat.digitChar (n % 16)] := by
  have hfirst {digit : Nat} (hdigit : digit < 16) : Text.hexadecimal 1 digit = [Nat.digitChar digit] := by
    rw [Text.hexadecimal, Nat.toDigits_of_lt_base hdigit]
    rfl
  rw [hexadecimal_succ (by decide), hexadecimal_succ (by decide), hexadecimal_succ (by decide), hfirst (by omega)]
  simp only [Nat.div_div_eq_div_mul]
  rfl

private theorem readUnits?_escapeUnit {unit : Nat} (h : unit < 0x10000) (rest : Text) :
    readUnits? (escapeUnit unit ++ rest) = (readUnits? rest).map (Prod.map (unit :: ·) id) := by
  have hunit : 0x1000 * (unit / 0x1000) + 0x100 * (unit / 0x100 % 16) + 0x10 * (unit / 0x10 % 16) + unit % 16 = unit := by
    omega
  rw [escapeUnit, hexadecimal_four h]
  simp only [List.cons_append, List.nil_append, readUnits?]
  rw [hexValue?_digitChar _ (by omega), hexValue?_digitChar _ (by omega), hexValue?_digitChar _ (by omega),
    hexValue?_digitChar _ (by omega)]
  simp only [Option.bind_eq_bind, Option.bind_some, hunit]
  cases readUnits? rest <;> rfl

private theorem readUnits?_letter {letter : Char} {unit : Nat} (hunit : escapedUnit? letter = some unit)
    (hletter : letter ≠ 'u')
    (rest : Text) : readUnits? ('\\' :: letter :: rest) = (readUnits? rest).map (Prod.map (unit :: ·) id) := by
  rw [readUnits?, hunit]
  · cases readUnits? rest <;> rfl
  · exact fun _ _ _ _ _ hu => absurd hu hletter

private theorem readUnits?_char {c : Char} (hquote : c ≠ '"') (hbackslash : c ≠ '\\') (hcode : 0x20 ≤ c.toNat)
    (rest : Text) :
    readUnits? (c :: rest) = (readUnits? rest).map (Prod.map (unitsOf c ++ ·) id) := by
  rw [readUnits?, if_neg (by simpa [hbackslash] using hcode)]
  · cases readUnits? rest <;> rfl
  · exact hquote
  · exact fun _ _ _ _ _ hslash => absurd hslash hbackslash
  · exact fun _ _ hslash => absurd hslash hbackslash

private theorem readUnits?_escapeChar (c : Char) (rest : Text) :
    readUnits? (escapeChar c ++ rest) = (readUnits? rest).map (Prod.map (unitsOf c ++ ·) id) := by
  unfold escapeChar
  split
  case h_8 hquote hbackslash _ _ _ _ _ =>
    dsimp only
    split
    · next hprintable =>
      simp only [Bool.and_eq_true, decide_eq_true_eq] at hprintable
      exact readUnits?_char hquote hbackslash hprintable.1 rest
    split
    · next hbasic =>
      rw [unitsOf_of_lt hbasic]
      exact readUnits?_escapeUnit hbasic rest
    · next hbasic =>
      have hcode := toNat_cases c
      rw [unitsOf_of_ge hbasic, List.append_assoc, readUnits?_escapeUnit (by omega), readUnits?_escapeUnit (by omega),
        Option.map_map]
      rfl
  all_goals exact readUnits?_letter rfl (by decide) rest

/-- A string is read up to the quote that ends it. -/
theorem readUnits?_flatMap (text rest : Text) :
    readUnits? (text.flatMap escapeChar ++ '"' :: rest) = some (text.flatMap unitsOf, rest) := by
  induction text with
  | nil => rfl
  | cons c text ih => rw [List.flatMap_cons, List.append_assoc, readUnits?_escapeChar, ih]; rfl

private theorem readString?_escape (text rest : Text) : readString? (escape text ++ rest) = some (text, rest) := by
  have hbody := readUnits?_flatMap text rest
  rw [escape, List.cons_append, List.cons_append, List.append_assoc, List.singleton_append, readString?, hbody]
  simp [ofUnits?_flatMap]

/-! ### Numbers -/

def EndsNumber (text : Text) : Prop := ∀ c ∈ text.head?, c.isDigit = false

theorem EndsNumber.cons {c : Char} (h : c.isDigit = false) (rest : Text) : EndsNumber (c :: rest) := by
  intro d hmem
  obtain rfl := Option.some.inj hmem
  exact h

private theorem isDigit_of_isSpace {c : Char} (h : isSpace c = true) : c.isDigit = false := by
  simp only [isSpace, Bool.or_eq_true, decide_eq_true_eq] at h
  rcases h with ((rfl | rfl) | rfl) | rfl <;> rfl

theorem isDigit_decimal {n : Nat} {c : Char} (h : c ∈ Text.decimal n) : c.isDigit = true :=
  Nat.isDigit_of_mem_toDigits (by decide) (by decide) h

theorem readNumber?_decimal (n : Nat) {rest : Text} (hrest : EndsNumber rest) :
    readNumber? (Text.decimal n ++ rest) = some (n, rest) := by
  have hdigits : (Text.decimal n ++ rest).takeWhile Char.isDigit = Text.decimal n := by
    rw [List.takeWhile_append_of_pos fun c hmem => isDigit_decimal hmem]
    cases rest with
    | nil => rw [List.takeWhile_nil, List.append_nil]
    | cons c rest => rw [List.takeWhile_cons_of_neg (by simp [hrest c rfl]), List.append_nil]
  have hvalue : Nat.ofDigitChars 10 (Text.decimal n) 0 = n := Nat.ofDigitChars_ten_toDigits
  simp only [readNumber?, hdigits, hvalue, if_true, List.drop_left]

/-! ### Lists -/

private theorem skip_cons {c : Char} (h : isSpace c = false) (rest : Text) : skip (c :: rest) = c :: rest :=
  List.dropWhile_cons_of_neg (by simp [h])

private theorem skip_newLine (depth : Nat) (rest : Text) : skip (newLine depth ++ rest) = skip rest := by
  refine List.dropWhile_append_of_pos fun c hmem => ?_
  rcases List.mem_cons.mp hmem with rfl | hmem
  · rfl
  · rw [List.eq_of_mem_replicate hmem]
    rfl

/-- What is written of a value is read as the value, whatever stands behind it, unless that goes on with a digit. It is
neither a blank nor the closing bracket that it begins with. -/
structure Reads {α : Type} (item : Text → Option (α × Text)) (close : Char) (written : Text) (value : α) : Prop where
  start : ∃ c rest, written = c :: rest ∧ isSpace c = false ∧ c ≠ close
  reads : ∀ rest, EndsNumber rest → item (written ++ rest) = some (value, rest)

private theorem intercalate_cons_eq (separator first : Text) (items : List Text) :
    separator.intercalate (first :: items) = first ++ items.flatMap (separator ++ ·) := by
  induction items generalizing first with
  | nil => simp
  | cons second items ih =>
    rw [List.intercalate_cons_cons, ih, List.flatMap_cons, List.append_assoc, List.append_assoc]

section
variable {α : Type} {item : Text → Option (α × Text)} {close : Char} {write : α → Text}

private theorem Reads.skip_append {written : Text} {value : α} (h : Reads item close written value) (rest : Text) :
    skip (written ++ rest) = written ++ rest := by
  obtain ⟨c, tail, rfl, hspace, -⟩ := h.start
  exact skip_cons hspace (tail ++ rest)

private theorem endsNumber_lines (depth : Nat) (items : List Text) (rest : Text) :
    EndsNumber (items.flatMap (',' :: newLine (depth + 1) ++ ·) ++ (newLine depth ++ rest)) := by
  cases items with
  | nil => exact .cons rfl _
  | cons _ _ => exact .cons rfl _

private theorem readRest?_lines (hclose : isSpace close = false ∧ close ≠ ',') (depth : Nat) (rest : Text) {values : List α}
    (hvalues : ∀ value ∈ values, Reads item close (write value) value) {bound : Nat} (hbound : values.length < bound) :
    readRest? item close bound
      ((values.map write).flatMap (',' :: newLine (depth + 1) ++ ·) ++ (newLine depth ++ close :: rest)) =
        some (values, rest) := by
  induction values generalizing bound with
  | nil =>
    cases bound with
    | zero => exact absurd hbound (Nat.not_lt_zero _)
    | succ bound =>
      rw [List.map_nil, List.flatMap_nil, List.nil_append, readRest?, skip_newLine, skip_cons hclose.1,
        List.head?_cons,
        if_neg (by simp [hclose.2]), if_pos rfl, List.tail_cons]
  | cons value values ih =>
    cases bound with
    | zero => exact absurd hbound (Nat.not_lt_zero _)
    | succ bound =>
      have hvalue := hvalues value List.mem_cons_self
      have hothers := ih (fun other hmem => hvalues other (List.mem_cons_of_mem value hmem)) (Nat.lt_of_succ_lt_succ hbound)
      rw [List.map_cons, List.flatMap_cons, List.append_assoc, List.append_assoc, List.cons_append, readRest?, skip_cons rfl,
        List.head?_cons, if_pos rfl, List.tail_cons, skip_newLine, hvalue.skip_append, hvalue.reads _ (endsNumber_lines _ _ _)]
      simp only [Option.bind_eq_bind, Option.bind_some, hothers]
      rfl

private theorem readItems?_enclose (hclose : isSpace close = false ∧ close ≠ ',') (depth : Nat) (left : Char)
    {values : List α}
    (hvalues : ∀ value ∈ values, Reads item close (write value) value) {bound : Nat} (hbound : values.length ≤ bound) :
    ∃ inner, enclose depth left close (values.map write) = left :: inner ∧
      ∀ rest, readItems? item close bound (inner ++ rest) = some (values, rest) := by
  cases values with
  | nil =>
    refine ⟨[close], rfl, fun rest => ?_⟩
    rw [List.singleton_append, readItems?, skip_cons hclose.1, List.head?_cons, if_pos rfl, List.tail_cons]
  | cons value values =>
    have hvalue := hvalues value List.mem_cons_self
    obtain ⟨c, tail, hstart, hspace, hopen⟩ := hvalue.start
    refine ⟨newLine (depth + 1) ++ (write value ++ ((values.map write).flatMap (',' :: newLine (depth + 1) ++ ·) ++
      (newLine depth ++ [close]))), ?_, fun rest => ?_⟩
    · rw [enclose, if_neg (by simp), List.map_cons]
      simp only [intercalate_cons_eq, List.append_assoc, List.cons_append]
    have hothers := readRest?_lines hclose depth rest (fun other hmem => hvalues other (List.mem_cons_of_mem value hmem)) hbound
    have hnone : (write value ++ ((values.map write).flatMap (',' :: newLine (depth + 1) ++ ·) ++
        (newLine depth ++ close :: rest))).head? ≠ some close := by
      simp [hstart, hopen]
    simp only [List.append_assoc, List.singleton_append]
    rw [readItems?, skip_newLine, hvalue.skip_append, if_neg hnone, hvalue.reads _ (endsNumber_lines _ _ _)]
    simp only [Option.bind_eq_bind, Option.bind_some, hothers]
    rfl

end

private theorem length_intercalate {separator : Text} (hseparator : 0 < separator.length) (items : List Text) :
    items.length ≤ (separator.intercalate items).length + 1 ∧
      ∀ item ∈ items, item.length ≤ (separator.intercalate items).length := by
  induction items with
  | nil => simp
  | cons first items ih =>
    cases items with
    | nil => simp
    | cons second items =>
      rw [List.intercalate_cons_cons, List.length_append, List.length_append, List.length_cons]
      refine ⟨by omega, fun item hmem => ?_⟩
      rcases List.mem_cons.mp hmem with rfl | hmem
      · omega
      · exact le_trans (ih.2 item hmem) (by omega)

private theorem length_enclose (depth : Nat) (left right : Char) (items : List Text) :
    items.length < (enclose depth left right items).length ∧
      ∀ item ∈ items, item.length < (enclose depth left right items).length := by
  unfold enclose
  split
  · next hempty =>
    obtain rfl := List.isEmpty_iff.mp hempty
    simp
  · obtain ⟨hcount, hitems⟩ := @length_intercalate (',' :: newLine (depth + 1)) (Nat.succ_pos _) items
    simp only [List.length_append, List.length_cons]
    exact ⟨by omega, fun item hmem => by have := hitems item hmem; omega⟩

/-! ### Values -/

def writeMember (depth : Nat) (member : Text × JsonValue) : Text :=
  escape member.1 ++ [':', ' '] ++ render depth member.2

private theorem renderMembers_eq_map (depth : Nat) (members : List (Text × JsonValue)) :
    renderMembers depth members = members.map (writeMember depth) := by
  induction members with
  | nil => rw [renderMembers, List.map_nil]
  | cons member members ih => rw [renderMembers, ih, List.map_cons, writeMember]

private theorem reads_string (text : Text) : Reads readString? ']' (escape text) text :=
  ⟨⟨'"', _, rfl, rfl, by decide⟩, fun rest _ => readString?_escape text rest⟩

private theorem reads_member {depth : Nat} {member : Text × JsonValue} {value : Text → Option (JsonValue × Text)}
    (h : Reads value '\x7d' (render depth member.2) member.2) :
    Reads (readMember? value) '\x7d' (writeMember depth member) member := by
  refine ⟨⟨'"', _, rfl, rfl, by decide⟩, fun rest hrest => ?_⟩
  have hblank (text : Text) : skip (' ' :: text) = skip text := List.dropWhile_cons_of_pos rfl
  rw [writeMember, List.append_assoc, List.append_assoc, readMember?, readString?_escape]
  simp only [Option.bind_eq_bind, Option.bind_some, List.cons_append, List.nil_append, skip_cons (c := ':') rfl, hblank,
    h.skip_append, h.reads rest hrest]
  rfl

private theorem reads_number (bound n : Nat) : Reads (readValue? (bound + 1)) '\x7d' (Text.decimal n) (.number n) := by
  obtain ⟨c, tail, hdigits⟩ : ∃ c tail, Text.decimal n = c :: tail := List.exists_cons_of_ne_nil Nat.toDigits_ne_nil
  have hdigit : c.isDigit = true := isDigit_decimal (hdigits ▸ List.mem_cons_self)
  have hother {other : Char} (h : other.isDigit = false) : c ≠ other := fun heq => by simp [← heq, hdigit] at h
  have hspace : isSpace c = false := Bool.eq_false_iff.mpr fun h => by simp [isDigit_of_isSpace h] at hdigit
  refine ⟨⟨c, tail, hdigits, hspace, hother rfl⟩, fun rest hrest => ?_⟩
  have hread := readNumber?_decimal n hrest
  rw [hdigits, List.cons_append] at hread ⊢
  rw [readValue?, hread]
  · rfl
  · exact fun _ heq => hother rfl (List.cons.inj heq).1
  · exact fun _ heq => hother rfl (List.cons.inj heq).1
  · exact fun _ heq => hother rfl (List.cons.inj heq).1

private theorem exists_bound {depth : Nat} {value : JsonValue} {bound : Nat} (h : (render depth value).length ≤ bound) :
    ∃ smaller, bound = smaller + 1 := by
  have hpos : 0 < (render depth value).length := by
    cases value with
    | number n => exact Nat.length_toDigits_pos
    | string text => exact Nat.succ_pos _
    | array items => exact Nat.zero_lt_of_lt (length_enclose _ _ _ _).1
    | object members => exact Nat.zero_lt_of_lt (length_enclose _ _ _ _).1
  exact ⟨bound - 1, by omega⟩

mutual
/-- A value is read from what is written of it. -/
theorem reads_render (depth : Nat) : ∀ (value : JsonValue) {bound : Nat}, (render depth value).length ≤ bound →
    Reads (readValue? bound) '\x7d' (render depth value) value
  | number n, _, hbound => by
    obtain ⟨bound, rfl⟩ := exists_bound hbound
    rw [render]
    exact reads_number bound n
  | string text, _, hbound => by
    obtain ⟨bound, rfl⟩ := exists_bound hbound
    rw [render]
    refine ⟨⟨'"', _, rfl, rfl, by decide⟩, fun rest _ => ?_⟩
    have hread := readString?_escape text rest
    rw [escape, List.cons_append, List.cons_append] at hread ⊢
    rw [readValue?, hread]
    rfl
  | array items, _, hbound => by
    obtain ⟨bound, rfl⟩ := exists_bound hbound
    rw [render] at hbound ⊢
    have hcount := (length_enclose depth '[' ']' (items.map escape)).1
    rw [List.length_map] at hcount
    obtain ⟨inner, hwritten, hread⟩ :=
      readItems?_enclose (by decide) depth '[' (fun text _ => reads_string text) (show items.length ≤ bound by omega)
    rw [hwritten]
    refine ⟨⟨'[', inner, rfl, rfl, by decide⟩, fun rest _ => ?_⟩
    rw [List.cons_append, readValue?, hread]
    rfl
  | object members, _, hbound => by
    obtain ⟨bound, rfl⟩ := exists_bound hbound
    rw [render] at hbound ⊢
    obtain ⟨hcount, hlength⟩ := length_enclose depth '\x7b' '\x7d' (renderMembers (depth + 1) members)
    have hmembers := reads_members (depth + 1) members fun written hmem => Nat.le_of_lt_succ ((hlength written hmem).trans_le hbound)
    rw [renderMembers_eq_map] at hcount hbound ⊢
    rw [List.length_map] at hcount
    obtain ⟨inner, hwritten, hread⟩ :=
      readItems?_enclose (by decide) depth '\x7b' hmembers (show members.length ≤ bound by omega)
    rw [hwritten]
    refine ⟨⟨'\x7b', inner, rfl, rfl, by decide⟩, fun rest _ => ?_⟩
    rw [List.cons_append, readValue?, hread]
    rfl

private theorem reads_members (depth : Nat) : ∀ (members : List (Text × JsonValue)) {bound : Nat},
    (∀ written ∈ renderMembers depth members, written.length ≤ bound) →
    ∀ member ∈ members, Reads (readMember? (readValue? bound)) '\x7d' (writeMember depth member) member
  | [], _, _, member, hmem => absurd hmem List.not_mem_nil
  | (name, value) :: rest, bound, hbound, member, hmem => by
    rw [renderMembers] at hbound
    rcases List.mem_cons.mp hmem with rfl | hmem
    · refine reads_member (reads_render depth value ?_)
      have hlength := hbound _ List.mem_cons_self
      rw [List.length_append] at hlength
      exact le_trans (Nat.le_add_left _ _) hlength
    · exact reads_members depth rest (fun written hwritten => hbound written (List.mem_cons_of_mem _ hwritten)) member hmem
end

/-- A document is read as the value that it is written from, whatever blanks stand behind it. -/
theorem read?_render (depth : Nat) (value : JsonValue) {after : Text} (hafter : ∀ c ∈ after, isSpace c = true) :
    read? (render depth value ++ after) = some value := by
  have hvalue : Reads (readValue? (render depth value ++ after).length) '\x7d' (render depth value) value :=
    reads_render depth value (by rw [List.length_append]; exact Nat.le_add_right _ _)
  have hends : EndsNumber after := fun c hmem => isDigit_of_isSpace (hafter c (List.mem_of_mem_head? hmem))
  have hskip : skip after = [] := List.dropWhile_eq_nil_iff.mpr hafter
  rw [read?, hvalue.skip_append, hvalue.reads after hends]
  simp only [Option.bind_eq_bind, Option.bind_some, hskip, List.isEmpty_nil, if_true]

/-- Documents that are written in another way are read too. -/
example : read? " \x7b\"a\": [\"\\u00E9\\/\" , \"\"],\"b\":10\x7d".toList =
    some (.object [("a".toList, .array ["é/".toList, []]), ("b".toList, .number 10)]) := by
  cbv

end SourceOrigin.JsonValue
