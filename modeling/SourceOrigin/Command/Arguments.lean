import SourceOrigin.Report.ScanReport

/-! The arguments of the command line: options, values and operands, and the invocations that they
make up. -/
namespace SourceOrigin.Command

inductive OptionName where
  | version
  | verbose
  | progress
  | format
  | only
  | workers
  deriving DecidableEq, Repr

namespace OptionName

def longName : OptionName → Text
  | version => "version".toList
  | verbose => "verbose".toList
  | progress => "progress".toList
  | format => "format".toList
  | only => "only".toList
  | workers => "workers".toList

def letter? : OptionName → Option Char
  | verbose => some 'v'
  | format => some 'f'
  | workers => some 'w'
  | version | progress | only => none

def takesValue : OptionName → Bool
  | format | only | workers => true
  | version | verbose | progress => false

end OptionName

/-- Options with their values, in order, and the operands. Options without a value have an empty one. -/
structure Arguments where
  options : List (OptionName × Text) := []
  operands : List Text := []
  deriving DecidableEq, Repr

/-- Reads the letters of one argument, and takes a value from the rest of the letters or, if there are
none, from the next argument. -/
def readLetters (known : List OptionName) :
    Text → List Text → Option (List (OptionName × Text) × List Text)
  | [], following => some ([], following)
  | letter :: letters, following =>
    match known.find? (·.letter? = some letter) with
    | none => none
    | some option =>
      if !option.takesValue then
        (readLetters known letters following).map fun (options, rest) => ((option, []) :: options, rest)
      else if letters ≠ [] then some ([(option, letters)], following)
      else match following with
        | value :: rest => some ([(option, value)], rest)
        | [] => none

/-- Reads an option with a long name, and its value from behind an equals sign or from the next
argument. -/
def readLong (known : List OptionName) (text : Text) (following : List Text) :
    Option (List (OptionName × Text) × List Text) :=
  let name := text.takeWhile (· != '=')
  match known.find? (·.longName = name), text.drop name.length with
  | none, _ => none
  | some option, '=' :: value => if option.takesValue then some ([(option, value)], following) else none
  | some option, _ =>
    if !option.takesValue then some ([(option, [])], following)
    else match following with
      | value :: rest => some ([(option, value)], rest)
      | [] => none

def readOption (known : List OptionName) (text : Text) (following : List Text) :
    Option (List (OptionName × Text) × List Text) :=
  match text with
  | '-' :: '-' :: long => readLong known long following
  | _ :: letters => readLetters known letters following
  | [] => none

private theorem length_readLetters_le {known : List OptionName} {letters : Text} {following rest : List Text}
    {options : List (OptionName × Text)} (h : readLetters known letters following = some (options, rest)) :
    rest.length ≤ following.length := by
  fun_induction readLetters known letters following generalizing options rest
  all_goals simp_all
  all_goals grind

private theorem length_readLong_le {known : List OptionName} {text : Text} {following rest : List Text}
    {options : List (OptionName × Text)} (h : readLong known text following = some (options, rest)) :
    rest.length ≤ following.length := by
  unfold readLong at h
  grind

private theorem length_readOption_le {known : List OptionName} {text : Text} {following rest : List Text}
    {options : List (OptionName × Text)} (h : readOption known text following = some (options, rest)) :
    rest.length ≤ following.length := by
  unfold readOption at h
  split at h
  · exact length_readLong_le h
  · exact length_readLetters_le h
  · simp at h

/-- Splits arguments into options and operands. Two dashes end the options, and so does the first
operand if `stopAtOperand` is set; a single dash is an operand. -/
def readArguments (known : List OptionName) (stopAtOperand : Bool) : List Text → Option Arguments
  | [] => some {}
  | text :: following =>
    if text = "--".toList then some { operands := following }
    else if text.head? = some '-' && text.length > 1 then
      match _h : readOption known text following with
      | none => none
      | some (options, rest) =>
        (readArguments known stopAtOperand rest).map fun arguments =>
          { arguments with options := options ++ arguments.options }
    else if stopAtOperand then some { operands := text :: following }
    else
      (readArguments known stopAtOperand following).map fun arguments =>
        { arguments with operands := text :: arguments.operands }
termination_by arguments => arguments.length
decreasing_by
  · exact Nat.lt_succ_of_le (length_readOption_le (by assumption))
  · exact Nat.lt_succ_self _

def Arguments.value? (arguments : Arguments) (option : OptionName) : Option Text :=
  arguments.options.reverse.lookup option

def Arguments.isSet (arguments : Arguments) (option : OptionName) : Bool := (arguments.value? option).isSome

inductive Format where
  | console
  | json
  deriving DecidableEq, Repr

structure ScanRequest where
  directory : Text := ".".toList
  format : Format := .console
  listing : Listing := .all
  workers : Option Int := none
  verbose : Bool := false
  deriving DecidableEq, Repr

inductive Invocation where
  | version
  | check (verbose : Bool) (paths : List Text)
  | scan (request : ScanRequest)
  deriving DecidableEq, Repr

def formatOf? : Option Text → Option Format
  | none => some .console
  | some name =>
    if name = "console".toList then some .console
    else if name = "json".toList then some .json
    else none

def listingOf? : Option Text → Option Listing
  | none => some .all
  | some name =>
    if name = "all".toList then some .all
    else if name = "generated".toList then some .generated
    else if name = "handwritten".toList then some .handwritten
    else none

/-- The number of workers that is asked for; the outer `none` means that it is no integer. -/
def workersOf? : Option Text → Option (Option Int)
  | none => some none
  | some written => (Text.readInt written).toOption.map some

def readCheck (arguments : List Text) : Option Invocation := do
  let read ← readArguments [.verbose] false arguments
  if read.operands.isEmpty then none else some (.check (read.isSet .verbose) read.operands)

def readScan (arguments : List Text) : Option Invocation := do
  let read ← readArguments [.format, .only, .workers, .progress, .verbose] false arguments
  let format ← formatOf? (read.value? .format)
  let listing ← listingOf? (read.value? .only)
  let workers ← workersOf? (read.value? .workers)
  let verbose := read.isSet .verbose
  match read.operands with
  | [] => some (.scan { format, listing, workers, verbose })
  | [directory] => some (.scan { directory, format, listing, workers, verbose })
  | _ => none

/-- The invocation that the arguments make up, if they are well formed. Asking for the version comes
before all else. -/
def readInvocation (arguments : List Text) : Option Invocation := do
  let read ← readArguments [.version] true arguments
  if read.isSet .version then some .version
  else match read.operands with
    | [] => none
    | command :: rest =>
      if command = "check".toList then readCheck rest
      else if command = "scan".toList then readScan rest
      else none

end SourceOrigin.Command
