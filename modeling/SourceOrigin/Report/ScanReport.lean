import SourceOrigin.Report.Json
import SourceOrigin.Session.Scan

/-! The two reports of a scan: rows and counts for the console, and a JSON document. -/
namespace SourceOrigin

inductive Listing where
  | all
  | generated
  | handwritten
  deriving DecidableEq, Repr

def Listing.includes (listing : Listing) (verdict : Bool) : Bool :=
  match listing with
  | .all => true
  | .generated => verdict
  | .handwritten => !verdict

def verdictLabel (generated : Bool) : Text :=
  if generated then "generated".toList else "handwritten".toList

def verdictLine (generated : Bool) (path : Text) : Text :=
  Text.padRight 12 (verdictLabel generated) ++ ' ' :: path

theorem verdictLine_eq_append (verdict : Bool) (path : Text) :
    verdictLine verdict path = verdictLine verdict [] ++ path := by
  rw [verdictLine, verdictLine, List.append_assoc, List.singleton_append]

namespace ScanResult

/-- Rows are in order if their paths are; of two rows with one path that of handwritten source comes
first. -/
def rowLe (a b : Text × Bool) : Bool :=
  if a.1 = b.1 then !a.2 || b.2 else Text.le a.1 b.1

def rows (result : ScanResult) (listing : Listing) : List (Text × Bool) :=
  let generated := if listing.includes true then result.generated.map (·, true) else []
  let handwritten := if listing.includes false then result.handwritten.map (·, false) else []
  sortBy rowLe (generated ++ handwritten)

def countLine (name : String) (count : Nat) : Text :=
  name.toList ++ Text.padLeft 7 (Text.grouped count)

/-- The lines of the report for the console. The counts are of all files, whatever is listed; the
line of errors is left out if there are none. -/
def consoleLines (result : ScanResult) (listing : Listing) (seconds : Text) : List Text :=
  let rule := List.replicate 50 '─'
  let errors := if result.errors = 0 then [] else [countLine "  Errors             " result.errors]
  (result.rows listing).map (fun (path, verdict) => verdictLine verdict path) ++
    [rule, countLine "  Files scanned      " result.filesScanned,
      countLine "  Generated          " result.generated.length,
      countLine "  Hand-written       " result.handwritten.length] ++
    errors ++ ["  Completed in ".toList ++ seconds ++ " seconds".toList, rule]

def toJson (result : ScanResult) (listing : Listing) : JsonValue :=
  let generated :=
    if listing.includes true then [("generated".toList, .array result.generated)] else []
  let handwritten :=
    if listing.includes false then [("handwritten".toList, .array result.handwritten)] else []
  .object (("files_scanned".toList, .number result.filesScanned) :: generated ++ handwritten ++
    [("errors".toList, .number result.errors), ("root_dir".toList, .string result.rootDirectory)])

end ScanResult

end SourceOrigin
