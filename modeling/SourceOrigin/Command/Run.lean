import SourceOrigin.Command.Arguments
import SourceOrigin.Text.Terminal

/-! The commands: what each writes, and with which exit code it ends. -/
namespace SourceOrigin.Command

inductive Failure where
  | logLevel (name : Text)
  | config (error : ValidationError)
  | session (error : SessionError)
  deriving DecidableEq, Repr

/-- What a run of the program leaves: its exit code, what it wrote, and what it failed with unexpectedly. -/
structure Response where
  exitCode : Nat
  output : Text := []
  errors : Text := []
  failure : Option Failure := none
  deriving DecidableEq, Repr

def unlines (lines : List Text) : Text := lines.flatMap (· ++ ['\n'])

def usageError : Response := { exitCode := 2 }

def aborted (failure : Failure) (lines errors : List Text := []) : Response :=
  { exitCode := 1, output := unlines lines, errors := unlines errors, failure := some failure }

/-- What the library for command lines does: it reads arguments, and takes control sequences out of texts. -/
structure Toolkit where
  read : List Text → Option Invocation := readInvocation
  plain : Text → Text := Text.plain

/-- What a run depends on besides its arguments: the files, the environment, the library for command
lines, the time that the run takes, as it is shown, whether the user interrupts a scan, and whether a
terminal shows the output and the errors. -/
structure World where
  files : FileTree
  environment : Environment
  toolkit : Toolkit := {}
  seconds : Text
  interrupt : Bool := false
  terminalOutput : Bool := false
  terminalErrors : Bool := false

def errorLine (message : String) : Text := "Error: ".toList ++ message.toList

def refusal : ValidationError → Response
  | .refused error => { exitCode := 1, errors := unlines [errorLine error.message] }
  | .uncaught error => aborted (.config (.uncaught error))

def loadConfig (environment : Environment) (workers : Option Int) : Except ValidationError Config := do
  let config ← (Config.ofEnvironment environment).mapError .refused
  let config := { config with maxWorkers := workers.getD config.maxWorkers }
  config.validate
  return config

/-- The levels of logging by name, each with the least severity that it lets through. -/
def logThresholds : List (Text × Nat) :=
  [("CRITICAL", 50), ("FATAL", 50), ("ERROR", 40), ("WARN", 30), ("WARNING", 30), ("INFO", 20), ("DEBUG", 10),
    ("NOTSET", 0)].map fun (name, severity) => (name.toList, severity)

/-- The severity that a command logs from. If it is to be verbose, the level of its configuration does not count. -/
def logThreshold (config : Config) (verbose : Bool) : Except Failure Nat :=
  if verbose then .ok 10
  else match logThresholds.lookup config.logLevel with
    | some severity => .ok severity
    | none => .error (.logLevel config.logLevel)

/-- The session for a command. A bad configuration is reported, and then no file is read. -/
def openSession (environment : Environment) (workers : Option Int) (verbose : Bool) : Except Response Session := do
  let config ← (loadConfig environment workers).mapError refusal
  let _ ← (logThreshold config verbose).mapError aborted
  (Session.start environment (some config) {}).mapError fun error => aborted (.config error)

structure Findings where
  lines : List Text := []
  errors : List Text := []
  failure : Option Failure := none
  deriving DecidableEq, Repr

/-- Checks files one after the other. Files that cannot be read do not keep the others from being
classified. -/
def checkFiles (files : FileTree) (session : Session) : List Text → Findings
  | [] => {}
  | path :: rest =>
    let done := session.classifyPath files (Path.ofText path)
    match done.outcome with
    | .ok generated =>
      let found := checkFiles files done.session rest
      { found with lines := verdictLine generated path :: found.lines }
    | .error (.load (.unreadable file fault)) =>
      let found := checkFiles files done.session rest
      { found with errors := errorLine (LoadError.unreadable file fault).message :: found.errors }
    | .error error => { failure := some (.session error) }

def Findings.response (found : Findings) : Response :=
  match found.failure with
  | some failure => aborted failure found.lines found.errors
  | none =>
    { exitCode := if found.errors.isEmpty then 0 else 1
      output := unlines found.lines
      errors := unlines found.errors }

def check (world : World) (verbose : Bool) (paths : List Text) : Response :=
  match openSession world.environment none verbose with
  | .error response => response
  | .ok session => (checkFiles world.files session paths).response

def reportLines (request : ScanRequest) (seconds : Text) (result : ScanResult) : List Text :=
  match request.format with
  | .json => [(result.toJson request.listing).render 0]
  | .console => result.consoleLines request.listing seconds

def scanResponse (request : ScanRequest) (seconds : Text) : Except SessionError ScanResult → Response
  | .ok result => { exitCode := 0, output := unlines (reportLines request seconds result) }
  | .error .interrupted | .error (.classify .cancelled) =>
    { exitCode := 130, errors := unlines [[], "Scan interrupted.".toList] }
  | .error error => aborted (.session error)

def scan (world : World) (request : ScanRequest) : Response :=
  match openSession world.environment request.workers request.verbose with
  | .error response => response
  | .ok session =>
    let done := session.scan world.files (Path.ofText request.directory) world.interrupt
    scanResponse request world.seconds done.outcome

def perform (world : World) : Invocation → Response
  | .version => { exitCode := 0, output := unlines ["genfilter, version ".toList ++ version] }
  | .check verbose paths => check world verbose paths
  | .scan request => scan world request

/-- What is seen of a text on the output. Control sequences are written to terminals only. -/
def World.onOutput (world : World) (text : Text) : Text :=
  if world.terminalOutput then text else world.toolkit.plain text

def World.onErrors (world : World) (text : Text) : Text :=
  if world.terminalErrors then text else world.toolkit.plain text

def World.shown (world : World) (response : Response) : Response :=
  { response with output := world.onOutput response.output, errors := world.onErrors response.errors }

def leadsTo (files : FileTree) (wanted : FileNode → Bool) (text : Text) : Bool :=
  match files.open? files.workingDirectory text with
  | .ok node => wanted node
  | .error _ => false

def isFile : FileNode → Bool
  | .file _ => true
  | _ => false

def isDirectory : FileNode → Bool
  | .directory _ => true
  | _ => false

def Invocation.isApplicable (files : FileTree) : Invocation → Bool
  | .version => true
  | .check _ paths => paths.all (leadsTo files isFile)
  | .scan request => leadsTo files isDirectory request.directory

def accepted (world : World) (arguments : List Text) : Option Invocation :=
  (world.toolkit.read arguments).filter (·.isApplicable world.files)

def run (world : World) (arguments : List Text) : Response :=
  match accepted world arguments with
  | none => usageError
  | some invocation => world.shown (perform world invocation)

end SourceOrigin.Command
