import SourceOrigin.Config
import SourceOrigin.FileTree.Source
import SourceOrigin.Log

/-! The walk over a directory: every entry below it that is no directory, and the choice of source
files among them. -/
namespace SourceOrigin

mutual
/-- What a walk finds of an entry with the given name: the entry itself, unless it is a directory, and
then the entries below it that are no directories, each by the names that lead to it. A directory with
an excluded name is not entered, and links are not followed. -/
def walkEntry (excluded : List Text) (name : Text) : FileNode → List Location
  | .directory entries =>
    if excluded.contains name then [] else (walkEntries excluded entries).map (name :: ·)
  | .file _ => [[name]]
  | .link _ => [[name]]

def walkEntries (excluded : List Text) : List (Text × FileNode) → List Location
  | [] => []
  | (name, node) :: rest => walkEntry excluded name node ++ walkEntries excluded rest
end

namespace FileTree

def fileSize? (tree : FileTree) (text : Text) : Option Nat :=
  match tree.open? tree.workingDirectory text with
  | .ok (.file content) => some content.length
  | _ => none

def hasTargetExtension (config : Config) (name : Text) : Bool :=
  config.targetExtensions.contains (Text.lower (Path.extension name))

def tooLarge (shown : Text) (size : Nat) : LogRecord :=
  ⟨.warning, .scan, "Skipping large file: ".toList ++ shown ++ " (".toList ++
    Text.tenths size (1024 * 1024) ++ "MB)".toList⟩

/-- Chooses among the locations below the directory that is shown as `root`. What does not lead to a
file is passed over. -/
def selectSources (tree : FileTree) (config : Config) (root : Text) : List Location → List Path × Log
  | [] => ([], [])
  | location :: rest =>
    let (paths, log) := tree.selectSources config root rest
    if !hasTargetExtension config (location.getLastD []) then (paths, log)
    else
      let shown := location.foldl Path.joinText root
      match tree.fileSize? shown with
      | none => (paths, log)
      | some size =>
        if (size : Int) ≤ config.maxFileBytes then (Path.ofText shown :: paths, log)
        else (paths, tooLarge shown size :: log)

/-- The source files below a directory, in order, and the records of those that are too large. A root
that is no directory has none. -/
def sourceFiles (tree : FileTree) (config : Config) (root : Path) : Except LoadError (List Path × Log) :=
  if root.holdsNul then .error .nulInPath
  else match tree.open? tree.workingDirectory root.toText with
  | .ok (.directory entries) =>
    let (paths, log) :=
      tree.selectSources config root.toText (walkEntries config.excludedDirectories entries)
    .ok (sortBy Path.le paths, log)
  | _ => .ok ([], [])

end FileTree

end SourceOrigin
