import Mathlib.Data.Prod.Lex
import SourceOrigin.Proofs.Report.JsonReading
import SourceOrigin.Proofs.Text.Order
import SourceOrigin.Report.ScanReport

/-! What the two reports of a scan say, read from what they show: rows and counts from the lines for the console, and all fields
of the result but a list that is not asked for from the document. -/
namespace SourceOrigin

def JsonValue.itemsAt (value : JsonValue) (name : Text) : List Text :=
  match value with
  | .object members =>
    match members.lookup name with
    | some (.array items) => items
    | _ => []
  | _ => []

/-! ### Reading lines -/

/-- The verdict and the path that a line gives, if it begins with a label. -/
def readRow? (line : Text) : Option (Bool × Text) :=
  match line.dropPrefix? (verdictLine true []) with
  | some path => some (true, path)
  | none => (line.dropPrefix? (verdictLine false [])).map (false, ·)

def isFigure (c : Char) : Bool := c ≠ ' ' && c ≠ ','

def readCount? (name : String) (line : Text) : Option Nat := do
  let written ← line.dropPrefix? name.toList
  match JsonValue.readNumber? (written.filter isFigure) with
  | some (n, []) => some n
  | _ => none

def apart (a b : Text) : Bool := !a.isPrefixOf b && !b.isPrefixOf a

private theorem dropPrefix?_eq_none {start front : Text} (h : apart start front = true) (text : Text) :
    (front ++ text).dropPrefix? start = none := by
  simp only [apart, Bool.and_eq_true, Bool.not_eq_true', ← Bool.not_eq_true, List.isPrefixOf_iff_prefix] at h
  refine Option.eq_none_iff_forall_not_mem.mpr fun rest hmem => ?_
  obtain ⟨taken, hsame, htaken⟩ := List.dropPrefix?_eq_some_iff.mp hmem
  obtain rfl : taken = start := eq_of_beq htaken
  rcases List.prefix_or_prefix_of_prefix ⟨rest, hsame.symm⟩ (List.prefix_append front text) with hstart | hfront
  · exact h.1 hstart
  · exact h.2 hfront

theorem readRow?_verdictLine (verdict : Bool) (path : Text) :
    readRow? (verdictLine verdict path) = some (verdict, path) := by
  have hown (verdict : Bool) : (verdictLine verdict path).dropPrefix? (verdictLine verdict []) = some path := by
    rw [verdictLine_eq_append]
    exact List.dropPrefix?_append_of_beq path (beq_self_eq_true _)
  unfold readRow?
  cases verdict with
  | true => rw [hown]
  | false =>
    have hother : (verdictLine false path).dropPrefix? (verdictLine true []) = none := by
      rw [verdictLine_eq_append]
      exact dropPrefix?_eq_none (by decide) path
    rw [hother, hown]
    rfl

private theorem readRow?_eq_none {front : Text} (h : ∀ verdict, apart (verdictLine verdict []) front = true) (text : Text) :
    readRow? (front ++ text) = none := by
  rw [readRow?, dropPrefix?_eq_none (h true), dropPrefix?_eq_none (h false)]
  rfl

theorem readCount?_eq_none {name : String} {front : Text} (h : apart name.toList front = true) (text : Text) :
    readCount? name (front ++ text) = none := by
  rw [readCount?, dropPrefix?_eq_none h]
  rfl

/-! ### Counts -/

private theorem filter_groupOnto (done text : Text) :
    (Text.groupOnto done text).filter isFigure = text.reverse.filter isFigure ++ done.filter isFigure := by
  fun_induction Text.groupOnto done text with
  | case1 done a b c d rest ih =>
    rw [ih, List.filter_cons_of_neg (by decide), ← List.filter_append, ← List.filter_append]
    simp
  | case2 done last => rw [List.filter_append]

private theorem isFigure_of_isDigit {c : Char} (h : c.isDigit = true) : isFigure c = true := by
  have hblank : c ≠ ' ' := fun heq => by simp [heq] at h
  have hcomma : c ≠ ',' := fun heq => by simp [heq] at h
  simp [isFigure, hblank, hcomma]

private theorem filter_padded (count : Nat) :
    (Text.padLeft 7 (Text.grouped count)).filter isFigure = Text.decimal count := by
  have hblanks (n : Nat) : (List.replicate n ' ').filter isFigure = [] := by simp [isFigure]
  rw [Text.padLeft, List.filter_append, hblanks, List.nil_append, Text.grouped, filter_groupOnto, List.reverse_reverse,
    List.filter_nil, List.append_nil]
  exact List.filter_eq_self.mpr fun c hmem => isFigure_of_isDigit (JsonValue.isDigit_decimal hmem)

private theorem readCount?_countLine (name : String) (count : Nat) :
    readCount? name (ScanResult.countLine name count) = some count := by
  have hread := JsonValue.readNumber?_decimal count (fun c hmem => absurd hmem (by simp) : JsonValue.EndsNumber [])
  rw [List.append_nil] at hread
  rw [readCount?, ScanResult.countLine, List.dropPrefix?_append_of_beq _ (beq_self_eq_true _)]
  simp only [Option.bind_eq_bind, Option.bind_some]
  rw [filter_padded, hread]

private theorem not_mem_countLine {name : String} {c : Char} (hname : c ∉ name.toList) (hfigure : isFigure c = true)
    (hdigit : c.isDigit = false) (count : Nat) : c ∉ ScanResult.countLine name count := by
  rw [ScanResult.countLine, List.mem_append, not_or]
  refine ⟨hname, fun hmem => ?_⟩
  have hdigits : c ∈ Text.decimal count := filter_padded count ▸ List.mem_filter.mpr ⟨hmem, hfigure⟩
  simp [JsonValue.isDigit_decimal hdigits] at hdigit

/-! ### The result in both reports -/

def Listing.excluded? : Listing → Option Text
  | .all => none
  | .generated => some "handwritten".toList
  | .handwritten => some "generated".toList

namespace ScanResult

def listed (result : ScanResult) (verdict : Bool) : List Text := if verdict then result.generated else result.handwritten

def fields (result : ScanResult) : List (Text × JsonValue) :=
  [("files_scanned".toList, .number result.filesScanned), ("generated".toList, .array result.generated),
    ("handwritten".toList, .array result.handwritten), ("errors".toList, .number result.errors),
    ("root_dir".toList, .string result.rootDirectory)]

/-- The fields of the result without the list that is not asked for. -/
def members (result : ScanResult) (listing : Listing) : List (Text × JsonValue) :=
  result.fields.filter fun field => some field.1 ≠ listing.excluded?

theorem toJson_eq_members (result : ScanResult) (listing : Listing) :
    result.toJson listing = .object (result.members listing) := by
  cases listing <;> rfl

private theorem rowLe_iff (a b : Text × Bool) : rowLe a b = true ↔ toLex a ≤ toLex b := by
  rw [Prod.Lex.toLex_le_toLex, rowLe]
  split
  · next hsame => cases a.2 <;> cases b.2 <;> simp [hsame]
  · next hother => simp [hother, Text.le_iff, le_iff_lt_or_eq]

/-- Rows are sorted by path, and of two rows with one path that of handwritten source comes first. -/
theorem rows_pairwise (result : ScanResult) (listing : Listing) :
    (result.rows listing).Pairwise fun a b => a.1 < b.1 ∨ a.1 = b.1 ∧ a.2 ≤ b.2 :=
  (sortBy_pairwise_key toLex rowLe_iff _).imp Prod.Lex.toLex_le_toLex.mp

/-- There is one row for each file of a list that is asked for, with the label of the list. -/
theorem rows_perm (result : ScanResult) (listing : Listing) (verdict : Bool) :
    (((result.rows listing).filter (·.2 = verdict)).map (·.1)).Perm
      (if listing.includes verdict then result.listed verdict else []) := by
  refine (((sortBy_perm rowLe _).filter fun row => row.2 = verdict).map Prod.fst).trans (.of_eq ?_)
  have hpart (asked label : Bool) (files : List Text) :
      ((if asked then files.map (·, label) else []).filter (·.2 = verdict)).map Prod.fst =
        if asked && label = verdict then files else [] := by
    cases asked with
    | false => rfl
    | true => by_cases hlabel : label = verdict <;> simp [List.filter_map, Function.comp_def, hlabel]
  rw [List.filter_append, List.map_append, hpart, hpart]
  cases listing <;> cases verdict <;> simp [Listing.includes, listed]

theorem mem_listed_of_mem_rows {result : ScanResult} {listing : Listing} {row : Text × Bool}
    (h : row ∈ result.rows listing) :
    row.1 ∈ result.listed row.2 := by
  have hmem : row.1 ∈ ((result.rows listing).filter (·.2 = row.2)).map (·.1) :=
    List.mem_map_of_mem (List.mem_filter.mpr ⟨h, decide_eq_true rfl⟩)
  rw [(result.rows_perm listing row.2).mem_iff] at hmem
  split at hmem
  · exact hmem
  · exact absurd hmem List.not_mem_nil

/-- The list of a verdict has the name of its label. -/
theorem itemsAt_members (result : ScanResult) (listing : Listing) (verdict : Bool) :
    (JsonValue.object (result.members listing)).itemsAt (verdictLabel verdict) =
      if listing.includes verdict then result.listed verdict else [] := by
  cases listing <;> cases verdict <;> rfl

theorem lookup_filesScanned (result : ScanResult) (listing : Listing) :
    (result.members listing).lookup "files_scanned".toList = some (.number result.filesScanned) := by
  cases listing <;> rfl

/-! ### The lines below the rows -/

def rule : Text := List.replicate 50 '─'

def countNames : List String :=
  ["  Files scanned      ", "  Generated          ", "  Hand-written       ", "  Errors             "]

def counts (result : ScanResult) : List (String × Nat) :=
  let errors := if result.errors = 0 then [] else [result.errors]
  countNames.zip ([result.filesScanned, result.generated.length, result.handwritten.length] ++ errors)

def summaryLines (result : ScanResult) (time : Text) : List Text :=
  rule :: result.counts.map (fun count => countLine count.1 count.2) ++ ["  Completed in ".toList ++ time, rule]

variable (result : ScanResult) {time : Text}

theorem consoleLines_eq (listing : Listing) (seconds : Text) : result.consoleLines listing seconds =
    (result.rows listing).map (fun row => verdictLine row.2 row.1) ++ result.summaryLines (seconds ++ " seconds".toList) := by
  unfold consoleLines summaryLines counts countNames
  split <;> simp [rule]

private theorem summaryLines_cases {line : Text} (h : line ∈ result.summaryLines time) :
    line = rule ∨ (∃ name ∈ countNames, ∃ count, line = countLine name count) ∨ line = "  Completed in ".toList ++ time := by
  simp only [summaryLines, List.cons_append, List.mem_cons, List.mem_append, List.mem_map, List.not_mem_nil, or_false] at h
  rcases h with rfl | ⟨⟨name, count⟩, hcount, rfl⟩ | rfl | rfl
  · exact .inl rfl
  · exact .inr (.inl ⟨name, (List.of_mem_zip hcount).1, count, rfl⟩)
  · exact .inr (.inr rfl)
  · exact .inl rfl

/-- No line below the rows is one. -/
theorem readRow?_summaryLines (time : Text) : (result.summaryLines time).filterMap readRow? = [] := by
  have hnames : ∀ name ∈ countNames, ∀ verdict, apart (verdictLine verdict []) name.toList = true := by decide
  have hrule : ∀ verdict, apart (verdictLine verdict []) rule = true := by decide
  refine List.filterMap_eq_nil_iff.mpr fun line hmem => ?_
  rcases result.summaryLines_cases hmem with rfl | ⟨name, hname, count, rfl⟩ | rfl
  · exact readRow?_eq_none hrule []
  · exact readRow?_eq_none (hnames name hname) _
  · exact readRow?_eq_none (by decide) time

/-- The counts of a name are read from the lines. -/
theorem readCount?_summaryLines {name : String} (hname : name ∈ countNames) (time : Text) :
    (result.summaryLines time).filterMap (readCount? name) =
      result.counts.filterMap fun count => if count.1 = name then some count.2 else none := by
  have hapart : ∀ name ∈ countNames, apart name.toList rule = true ∧ apart name.toList "  Completed in ".toList = true ∧
      ∀ other ∈ countNames, other = name ∨ apart name.toList other.toList = true := by
    decide
  obtain ⟨hrule, hcompleted, hothers⟩ := hapart name hname
  have hnone : readCount? name rule = none := readCount?_eq_none hrule []
  rw [summaryLines, List.cons_append, List.filterMap_cons_none hnone, List.filterMap_append, List.filterMap_map,
    List.filterMap_cons_none (readCount?_eq_none hcompleted time), List.filterMap_cons_none hnone, List.filterMap_nil,
    List.append_nil]
  refine List.filterMap_congr fun count hcount => ?_
  rw [Function.comp_apply]
  rcases hothers count.1 (List.of_mem_zip hcount).1 with hsame | hother
  · rw [if_pos hsame, ← hsame, readCount?_countLine]
  · have hne : count.1 ≠ name := by
      rintro rfl
      simp [apart, List.isPrefixOf_iff_prefix.mpr List.prefix_rfl] at hother
    rw [if_neg hne, countLine, readCount?_eq_none hother]

/-- Neither a line feed nor an escape stands below the rows, unless the time is told with one. -/
theorem not_mem_summaryLines {c : Char} (hc : c = '\n' ∨ c = '\x1b') (htime : c ∉ time) :
    ∀ line ∈ result.summaryLines time, c ∉ line := by
  -- The characters are put in first: with a bound one, all characters would be tried.
  have hnames : ∀ name ∈ countNames, c ∉ name.toList := by rcases hc with rfl | rfl <;> decide
  have hcounts : isFigure c = true ∧ c.isDigit = false := by rcases hc with rfl | rfl <;> decide
  have hrule : c ∉ rule := by rcases hc with rfl | rfl <;> decide
  have hcompleted : c ∉ "  Completed in ".toList := by rcases hc with rfl | rfl <;> decide
  intro line hmem
  rcases result.summaryLines_cases hmem with rfl | ⟨name, hname, count, rfl⟩ | rfl
  · exact hrule
  · exact not_mem_countLine (hnames name hname) hcounts.1 hcounts.2 count
  · rw [List.mem_append, not_or]
    exact ⟨hcompleted, htime⟩

end ScanResult

end SourceOrigin
