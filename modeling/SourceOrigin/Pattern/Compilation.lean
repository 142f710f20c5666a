import SourceOrigin.Pattern.Occurrence
import SourceOrigin.Pattern.Parser

/-! The compilation of patterns. Plain patterns are read here; all others are left to an engine. -/
namespace SourceOrigin.Pattern

/-- What compiles the patterns that are not plain: to a search in names, if it can. -/
abbrev Engine := Text → Except EngineError (Text → Bool)

def Engine.plainOnly : Engine := fun _ => .error (.malformed "unsupported pattern")

def isPlainEscape (c : Char) : Bool := c = 'd' || !c.isAlphanum

/-- What stands for more than a group behind an opening parenthesis and a question mark. -/
def extensionMarks : List Char := "P#=!<(>iLmsxatu-".toList

def opensExtension : Text → Bool
  | '?' :: mark :: _ => extensionMarks.contains mark
  | _ => false

def usesPlainSigns : Text → Bool
  | [] => true
  | '\\' :: c :: rest => isPlainEscape c && usesPlainSigns rest
  | '(' :: rest => !opensExtension rest && usesPlainSigns rest
  | _ :: rest => usesPlainSigns rest

/-- Groups are nested at most this deep in a plain pattern, so that no recursion into them is too deep. -/
def groupLimit : Nat := 100

/-- The pattern is made up of literals, sets, digits, anchors, groups, alternatives and repetitions. -/
def isPlain (written : Text) : Bool := usesPlainSigns written && written.count '(' ≤ groupLimit

def compile (engine : Engine) (written : Text) : Except PatternError (Text → Bool) :=
  if isPlain written then (parse written).map occursIn else (engine written).mapError .engine

end SourceOrigin.Pattern
