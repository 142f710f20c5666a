import SourceOrigin.Text.Basic

/-! Log records. -/
namespace SourceOrigin

inductive LogLevel where
  | debug
  | info
  | warning
  | error
  deriving DecidableEq, Repr

inductive LogSource where
  | classification
  | cache
  | scan
  | session
  deriving DecidableEq, Repr

structure LogRecord where
  level : LogLevel
  source : LogSource
  message : Text
  deriving DecidableEq, Repr

abbrev Log := List LogRecord

def shownPath (path : Option Text) : Text := path.getD "None".toList

end SourceOrigin
