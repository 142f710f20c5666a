import SourceOrigin.Command.Run

/-! The program: it takes a picture of the files that its arguments lead to, runs the command on the
picture, and writes what the command answers. -/
namespace SourceOrigin.Program

/-- Puts an entry into a directory at the given names. Entries that are there already stay. -/
private def graft (entry : FileNode) : Location → FileNode → FileNode
  | [], .directory present =>
    match entry with
    | .directory entries =>
      .directory (present ++ entries.filter fun (name, _) => (present.lookup name).isNone)
    | _ => .directory present
  | [], other => other
  | name :: rest, .directory present =>
    let below := (present.lookup name).getD (if rest.isEmpty then entry else .directory [])
    .directory ((name, graft entry rest below) :: present.filter (·.1 ≠ name))
  | _ :: _, other => other

private def namesOf (path : String) : Location := Path.namesIn path.toList

private def linkAt? (path : String) : IO (Option FileNode) := do
  let place := (← IO.currentDir) / path
  try
    if (← place.symlinkMetadata).type == .symlink then
      let goal ← try IO.FS.realPath place catch _ => pure place
      return some (.link goal.toString.toList)
    return none
  catch _ => return none

private partial def picture (path : String) : IO (Option FileNode) := do
  if let some link ← linkAt? path then return some link
  let place := (← IO.currentDir) / path
  try
    match (← place.metadata).type with
    | .file => return some (.file (← IO.FS.readBinFile place).toList)
    | .dir =>
      let mut entries : List (Text × FileNode) := []
      for entry in ← place.readDir do
        if let some node ← picture entry.path.toString then
          entries := (entry.fileName.toList, node) :: entries
      return some (.directory entries)
    | _ => return none
  catch _ => return none

/-- Takes up the entry at a path, the links on the way to it, and where it leads. -/
private def takeUp (root : FileNode) (path : String) : IO FileNode := do
  let mut tree := root
  let mut walked := ""
  for name in namesOf path do
    walked := walked ++ "/" ++ String.ofList name
    if let some link ← linkAt? walked then
      tree := graft link (namesOf walked) tree
  try
    let goal := (← IO.FS.realPath path).toString
    if let some node ← picture goal then
      tree := graft node (namesOf goal) tree
  catch _ => pure ()
  return tree

private def seconds (milliseconds : Nat) : Text :=
  let digits := Text.decimal (milliseconds % 1000)
  Text.decimal (milliseconds / 1000) ++ '.' :: List.replicate (3 - digits.length) '0' ++ digits

private def setting (name : String) : IO (Option Text) := do
  return (← IO.getEnv name).map (·.toList)

def runOnMachine (arguments : List String) : IO UInt32 := do
  let started ← IO.monoMsNow
  let here := (← IO.FS.realPath (← IO.currentDir)).toString
  let mut root ← takeUp (.directory []) here
  for argument in arguments do
    root ← takeUp root (if argument.startsWith "/" then argument else here ++ "/" ++ argument)
  let environment : Environment := {
    logLevel := ← setting "GENFILTER_LOG_LEVEL"
    maxWorkers := ← setting "GENFILTER_MAX_WORKERS"
    maxFileSizeMb := ← setting "GENFILTER_MAX_FILE_SIZE_MB" }
  let elapsed := (← IO.monoMsNow) - started
  let world : Command.World := {
    files := { root, workingDirectory := namesOf here }
    environment
    seconds := seconds elapsed
    terminalOutput := ← (← IO.getStdout).isTty
    terminalErrors := ← (← IO.getStderr).isTty }
  let response := Command.run world (arguments.map (·.toList))
  IO.print (String.ofList response.output)
  IO.eprint (String.ofList response.errors)
  return response.exitCode.toUInt32

end SourceOrigin.Program

def main (arguments : List String) : IO UInt32 := SourceOrigin.Program.runOnMachine arguments
