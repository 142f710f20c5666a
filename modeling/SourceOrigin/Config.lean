import SourceOrigin.Pattern.Compilation
import SourceOrigin.Text.Quoted

/-! The configuration of an analysis: its defaults, its reading from the environment, and its
validation. -/
namespace SourceOrigin

/-- What the heuristics look for and how files are found and read. Target extensions and excluded
directories are sets: their order and repetitions do not matter. -/
structure Config where
  /-- Patterns searched for in the base name of a file, without regard to case. -/
  fileNamePatterns : List Text := ["\\.designer\\.cs$".toList]
  /-- Texts searched for in header comments, literally. -/
  headerMarkers : List Text := ["<auto-generated".toList, "<autogenerated".toList]
  targetExtensions : List Text := [".cs".toList]
  excludedDirectories : List Text :=
    [".git", ".vs", ".idea", "bin", "obj", "node_modules", "packages", "TestResults"].map (·.toList)
  maxFileSizeMb : Int := 5
  sourceEncoding : Text := "utf-8-sig".toList
  maxWorkers : Int := 8
  logLevel : Text := "INFO".toList
  logFormat : Text := "%(asctime)s - %(name)s - %(levelname)s - %(message)s".toList
  /-- What the patterns are left to that are not plain. -/
  engine : Pattern.Engine := .plainOnly

inductive ConfigError where
  | invalidNumber (written : Text) (reason : Text.NumeralError)
  | workersNotPositive (workers : Int)
  | fileSizeNotPositive (megabytes : Int)
  | noMarker
  | invalidPattern (written : Text) (error : PatternError)
  | unknownLogLevel (level : Text)
  deriving DecidableEq, Repr

/-- The wording of a failure to read an integer. At most 200 characters of the quoted text are shown. -/
def numeralMessage (written : Text) : Text.NumeralError → String
  | .malformed =>
    s!"invalid literal for int() with base 10: {String.ofList ((Text.quote written).take 200)}"
  | .tooLong digits => Text.tooLongMessage digits

def ConfigError.message : ConfigError → String
  | invalidNumber written reason =>
    s!"Invalid numeric environment setting: {numeralMessage written reason}"
  | workersNotPositive workers =>
    s!"max_workers must be positive, got {String.ofList (Text.decimalInt workers)}.\n" ++
      "  Set via: export GENFILTER_MAX_WORKERS=8"
  | fileSizeNotPositive megabytes =>
    s!"max_file_size_mb must be positive, got {String.ofList (Text.decimalInt megabytes)}."
  | noMarker => "header_markers must contain at least one non-empty marker."
  | invalidPattern written error =>
    s!"Invalid generated file pattern {String.ofList (Text.quote written)}: {error.message}"
  | unknownLogLevel level =>
    s!"Unknown log level '{String.ofList level}'.\n  Set via: export GENFILTER_LOG_LEVEL=INFO"

/-- Why a configuration is not accepted: it is refused, or compiling a pattern fails with an error that
says nothing of the pattern being malformed, and that is passed on. -/
inductive ValidationError where
  | refused (error : ConfigError)
  | uncaught (error : PatternError)
  deriving DecidableEq, Repr

namespace ValidationError

def ofPattern (written : Text) (error : PatternError) : ValidationError :=
  if error.isMalformed then .refused (.invalidPattern written error) else .uncaught error

def message : ValidationError → String
  | refused error => error.message
  | uncaught error => error.message

end ValidationError

structure Environment where
  logLevel : Option Text := none
  maxWorkers : Option Text := none
  maxFileSizeMb : Option Text := none
  deriving DecidableEq, Repr

def logLevelNames : List Text :=
  ["CRITICAL", "FATAL", "ERROR", "WARN", "WARNING", "INFO", "DEBUG", "NOTSET"].map (·.toList)

namespace Config

def numberIn (setting : Option Text) (default : Int) : Except ConfigError Int :=
  match setting with
  | none => .ok default
  | some written => (Text.readInt written).mapError (.invalidNumber written)

/-- The configuration that the environment asks for; all else keeps its default. Of two bad numbers
that of the workers is reported. -/
def ofEnvironment (environment : Environment) : Except ConfigError Config := do
  let defaults : Config := {}
  let maxWorkers ← numberIn environment.maxWorkers defaults.maxWorkers
  let maxFileSizeMb ← numberIn environment.maxFileSizeMb defaults.maxFileSizeMb
  let logLevel := (environment.logLevel.map Text.upper).getD defaults.logLevel
  return { maxWorkers, maxFileSizeMb, logLevel }

def checkPatterns (engine : Pattern.Engine) : List Text → Except ValidationError Unit
  | [] => .ok ()
  | written :: rest =>
    match Pattern.compile engine written with
    | .error error => .error (.ofPattern written error)
    | .ok _ => checkPatterns engine rest

/-- Refuses a configuration that cannot be worked with, by the first reason in the order of the
checks: workers, file size, markers, patterns, log level. -/
def validate (config : Config) : Except ValidationError Unit :=
  if config.maxWorkers ≤ 0 then .error (.refused (.workersNotPositive config.maxWorkers))
  else if config.maxFileSizeMb ≤ 0 then .error (.refused (.fileSizeNotPositive config.maxFileSizeMb))
  else if config.headerMarkers.isEmpty || config.headerMarkers.any (·.isEmpty) then
    .error (.refused .noMarker)
  else match checkPatterns config.engine config.fileNamePatterns with
    | .error error => .error error
    | .ok () =>
      if logLevelNames.contains config.logLevel then .ok ()
      else .error (.refused (.unknownLogLevel config.logLevel))

def maxFileBytes (config : Config) : Int := config.maxFileSizeMb * 1024 * 1024

def sameSet (xs ys : List Text) : Bool := xs.all ys.contains && ys.all xs.contains

/-- The settings are the same. What reads the patterns is none of them. -/
def agrees (a b : Config) : Bool :=
  sameSet a.targetExtensions b.targetExtensions && sameSet a.excludedDirectories b.excludedDirectories &&
  a.fileNamePatterns = b.fileNamePatterns && a.headerMarkers = b.headerMarkers &&
  a.maxFileSizeMb = b.maxFileSizeMb && a.sourceEncoding = b.sourceEncoding &&
  a.maxWorkers = b.maxWorkers && a.logLevel = b.logLevel && a.logFormat = b.logFormat

end Config

structure Health where
  version : Text
  fileNamePatterns : List Text
  headerMarkers : List Text
  maxWorkers : Int
  deriving DecidableEq, Repr

def version : Text := "1.0.0".toList

def Config.health (config : Config) : Health :=
  ⟨version, config.fileNamePatterns, config.headerMarkers, config.maxWorkers⟩

end SourceOrigin
