import SourceOrigin.FileTree.Walk
import SourceOrigin.Session.Basic

/-! Scans: the classification of a list of files within a session, and of all source files below a
directory. -/
namespace SourceOrigin

structure ScanResult where
  filesScanned : Nat := 0
  generated : List Text := []
  handwritten : List Text := []
  errors : Nat := 0
  rootDirectory : Text := []
  deriving DecidableEq, Repr

structure Tally where
  generated : List Text := []
  handwritten : List Text := []
  errors : Nat := 0
  log : Log := []

/-- Collects the outcomes of files. A file that cannot be read is counted and logged; any other error
ends the collection. -/
def Tally.collect (tally : Tally) : List (Path × Except SessionError Bool) → Tally × Option SessionError
  | [] => (tally, none)
  | (path, .ok true) :: rest =>
    { tally with generated := path.toText :: tally.generated }.collect rest
  | (path, .ok false) :: rest =>
    { tally with handwritten := path.toText :: tally.handwritten }.collect rest
  | (path, .error (.load (.unreadable file fault))) :: rest =>
    let message := (LoadError.unreadable file fault).message.toList
    let record : LogRecord :=
      ⟨.error, .scan, "Error reading ".toList ++ path.toText ++ ": ".toList ++ message⟩
    { tally with errors := tally.errors + 1, log := tally.log ++ [record] }.collect rest
  | (_, .error error) :: _ => (tally, some error)

def Tally.report (tally : Tally) (count : Nat) (root : Text) : ScanResult where
  filesScanned := count
  generated := sortBy Text.le tally.generated.reverse
  handwritten := sortBy Text.le tally.handwritten.reverse
  errors := tally.errors
  rootDirectory := root

namespace Session

/-- Loads and classifies one file of a scan, unless the session is cancelled. -/
def processFile (session : Session) (files : FileTree) (path : Path) : SessionResult Bool :=
  let session := { session with token := session.token.poll }
  if session.token.cancelled then ⟨.error (.classify .cancelled), session, []⟩
  else session.classifyPath files path

def processFiles (session : Session) (files : FileTree) :
    List Path → List (Path × Except SessionError Bool) × Session × Log
  | [] => ([], session, [])
  | path :: rest =>
    let done := session.processFile files path
    let (outcomes, last, log) := done.session.processFiles files rest
    ((path, done.outcome) :: outcomes, last, done.log ++ log)

def scanRecord (level : LogLevel) (message : Text) : LogRecord := ⟨level, .scan, message⟩

def announcement (count : Nat) (workers : Int) : LogRecord :=
  scanRecord .info ("Classifying ".toList ++ Text.grouped count ++ " files (".toList ++
    Text.decimalInt workers ++ " workers)...".toList)

def droppedRecord : LogRecord := scanRecord .warning "Scan cancelled; pending files dropped".toList

def summaryRecord (result : ScanResult) : LogRecord :=
  scanRecord .info ("Done: ".toList ++ Text.grouped result.generated.length ++ " generated, ".toList ++
    Text.grouped result.handwritten.length ++ " hand-written, ".toList ++ Text.grouped result.errors ++
    " errors".toList)

/-- Classifies every file of a list. Files that cannot be read are counted; a cancellation ends the
scan without a report. If the user interrupts it, which shows when all files have been processed, the
session is cancelled too. -/
def run (session : Session) (files : FileTree) (paths : List Path) (root : Text)
    (interrupt : Bool := false) : SessionResult ScanResult :=
  match paths with
  | [] =>
    ⟨.ok { rootDirectory := root }, session,
      [scanRecord .warning "No source files found to classify.".toList]⟩
  | paths =>
    let (outcomes, session, log) := session.processFiles files paths
    let log := announcement paths.length session.config.maxWorkers :: log
    if interrupt then
      ⟨.error .interrupted, { session with token := session.token.cancel }, log ++ [droppedRecord]⟩
    else match Tally.collect {} outcomes with
      | (tally, some error) =>
        let dropped := if error = .classify .cancelled then [droppedRecord] else []
        ⟨.error error, session, log ++ tally.log ++ dropped⟩
      | (tally, none) =>
        let result := tally.report paths.length root
        ⟨.ok result, session, log ++ tally.log ++ [summaryRecord result]⟩

def scan (session : Session) (files : FileTree) (directory : Path) (interrupt : Bool := false) :
    SessionResult ScanResult :=
  match files.resolutionError? directory with
  | some error => ⟨.error (.load error), session, []⟩
  | none =>
    let root := Path.ofLocation (files.resolve directory)
    match files.sourceFiles session.config root with
    | .error error => ⟨.error (.load error), session, []⟩
    | .ok (paths, skipped) =>
      let done := session.run files paths root.toText interrupt
      ⟨done.outcome, done.session, skipped ++ done.log⟩

end Session

end SourceOrigin
