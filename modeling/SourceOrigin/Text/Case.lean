import SourceOrigin.Text.Basic
import SourceOrigin.Text.CaseTable

/-! Letter case: lower and upper forms, and when two characters are the same letter. -/
namespace SourceOrigin.Text

def shifted (table : List (Nat × Nat × Nat × Nat)) (n : Nat) : Nat :=
  match table.find? fun (first, last, step, _) => first ≤ n && n ≤ last && (n - first) % step = 0 with
  | some (first, _, _, image) => image + (n - first)
  | none => n

def inRanges (table : List (Nat × Nat)) (n : Nat) : Bool :=
  table.any fun (first, last) => first ≤ n && n ≤ last

def lowerChar (c : Char) : Char :=
  if c.toNat < 0x80 then (if c.isUpper then Char.ofNat (c.toNat + 32) else c)
  else Char.ofNat (shifted lowerShifts c.toNat)

def upperChar (c : Char) : Text :=
  if c.toNat < 0x80 then [if c.isLower then Char.ofNat (c.toNat - 32) else c]
  else match upperExpansions.lookup c.toNat with
    | some image => image.map Char.ofNat
    | none => [Char.ofNat (shifted upperShifts c.toNat)]

def upper (text : Text) : Text := text.flatMap upperChar

/-- Two characters are the same letter if their lower-case forms have one upper-case form. This
identifies the long s with s, the dotless and dotted i with i, and the final sigma with sigma. -/
def sameLetter (c d : Char) : Bool := upperChar (lowerChar c) = upperChar (lowerChar d)

def sources (table : List (Nat × Nat × Nat × Nat)) (n : Nat) : List Nat :=
  n :: table.filterMap fun (first, last, step, image) =>
    if image ≤ n && n - image ≤ last - first && (n - image) % step = 0 then some (first + (n - image))
    else none

/-- The characters that are the same letter as the given one, itself among them. They are found
backwards through the tables: from the upper-case form to the lower-case forms that have it, and from
these to all that have them. -/
def variants (c : Char) : List Char :=
  let lowerForms : List Nat :=
    match upperChar (lowerChar c) with
    | [image] => sources upperShifts image.toNat
    | several => upperExpansions.filterMap fun (n, image) =>
      if image.map Char.ofNat = several then some n else none
  ((lowerForms.flatMap (sources lowerShifts)).map Char.ofNat).filter (sameLetter c)

def meetsLetter (text : Text) : Bool :=
  match text.dropWhile (inRanges caseIgnorableRanges ·.toNat) with
  | c :: _ => inRanges casedRanges c.toNat
  | [] => false

/-- The lower-case form of a character between the given texts, the one before it reversed. A sigma
at the end of a word takes its final form, and the capital dotted i keeps its dot as a mark. -/
def lowerBetween (before : Text) (c : Char) (after : Text) : Text :=
  if c = '\u03A3' then
    [if meetsLetter before && !meetsLetter after then '\u03C2' else '\u03C3']
  else if c = '\u0130' then ['i', '\u0307']
  else [lowerChar c]

def lowerOnto (done before : Text) : Text → Text
  | [] => done.reverse
  | c :: after => lowerOnto ((lowerBetween before c after).reverse ++ done) (c :: before) after

def lower (text : Text) : Text := lowerOnto [] [] text

end SourceOrigin.Text
