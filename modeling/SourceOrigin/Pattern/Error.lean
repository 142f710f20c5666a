import SourceOrigin.Text.Decimal

/-! What can be wrong with a written pattern, and the wording of it. -/
namespace SourceOrigin

inductive PatternFault where
  | openGroup
  | unbalancedParenthesis
  | openSet
  | nothingToRepeat
  | multipleRepeat
  | badRange (first last : Text)
  | badBounds
  | danglingBackslash
  | unknownExtension (written : Text)
  | unexpectedEnd
  | tooManyRepetitions
  | tooManyDigits (digits : Nat)
  deriving DecidableEq, Repr

/-- What an engine for patterns raises: the pattern is malformed, or the engine fails in a way of its own. -/
inductive EngineError where
  | malformed (message : String)
  | failed (kind message : String)
  deriving DecidableEq, Repr

/-- Why a pattern cannot be compiled: a fault at a position of a plain pattern, or what the engine raises for another one. -/
inductive PatternError where
  | misread (fault : PatternFault) (position : Nat) (pattern : Text)
  | engine (error : EngineError)
  deriving DecidableEq, Repr

namespace PatternFault

def isLimit : PatternFault → Bool
  | tooManyRepetitions | tooManyDigits _ => true
  | _ => false

def message : PatternFault → String
  | openGroup => "missing ), unterminated subpattern"
  | unbalancedParenthesis => "unbalanced parenthesis"
  | openSet => "unterminated character set"
  | nothingToRepeat => "nothing to repeat"
  | multipleRepeat => "multiple repeat"
  | badRange first last => s!"bad character range {String.ofList first}-{String.ofList last}"
  | badBounds => "min repeat greater than max repeat"
  | danglingBackslash => "bad escape (end of pattern)"
  | unknownExtension written => s!"unknown extension ?{String.ofList written}"
  | unexpectedEnd => "unexpected end of pattern"
  | tooManyRepetitions => "the repetition number is too large"
  | tooManyDigits digits => Text.tooLongMessage digits

/-- The place is told unless a limit is exceeded; line and column, counted from one, are told if the
pattern has several lines. -/
def messageAt (fault : PatternFault) (position : Nat) (pattern : Text) : String :=
  let place := s!"{fault.message} at position {position}"
  if fault.isLimit then fault.message
  else if pattern.contains '\n' then
    let before := pattern.take position
    let line := before.count '\n' + 1
    let column := (Text.afterLast (· = '\n') before).length + 1
    s!"{place} (line {line}, column {column})"
  else place

end PatternFault

namespace PatternError

def isMalformed : PatternError → Bool
  | misread fault _ _ => !fault.isLimit
  | engine (.malformed _) => true
  | engine (.failed _ _) => false

def message : PatternError → String
  | misread fault position pattern => fault.messageAt position pattern
  | engine (.malformed message) => message
  | engine (.failed _ message) => message

end PatternError

end SourceOrigin
