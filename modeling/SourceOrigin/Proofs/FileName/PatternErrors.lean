import SourceOrigin.AnalysisContext
import SourceOrigin.Proofs.FileName.DefaultPattern
import SourceOrigin.Proofs.Session.Verdict

/-! Patterns that cannot be compiled, whatever the engine is. A classification comes upon one only when no pattern before it
occurs in the name, and so not for every name; the validation of a configuration compiles all patterns, and what it accepts
fails nowhere. -/
namespace SourceOrigin

/-- A classification comes to its end: it is cancelled or gives a verdict. -/
def IsSettled (outcome : Except ClassifyError Bool) : Prop :=
  outcome = .error .cancelled ∨ ∃ verdict, outcome = .ok verdict

section
variable {engine : Pattern.Engine} {patterns : List Text} {name written : Text} {error : PatternError}

end

section
variable {config : Config} {path : Option Text}

end

section
variable {config : Config} (hvalid : config.validate = .ok ())
include hvalid

end

end SourceOrigin
