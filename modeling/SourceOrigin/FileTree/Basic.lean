import SourceOrigin.Encoding.Basic
import SourceOrigin.FileTree.Path

/-! File trees with symbolic links, and the two ways of following a path: one that must end at an
entry, and one that goes on by name where entries are missing. -/
namespace SourceOrigin

inductive FileNode where
  | file (content : Bytes)
  | directory (entries : List (Text × FileNode))
  | link (target : Text)

/-- The names that lead from the root to an entry without passing a link. -/
abbrev Location := List Text

mutual
def FileNode.links : FileNode → List Location
  | .file _ => []
  | .directory entries => linksIn entries
  | .link _ => [[]]

def linksIn : List (Text × FileNode) → List Location
  | [] => []
  | (name, node) :: rest => node.links.map (name :: ·) ++ linksIn rest
end

def FileNode.at? (node : FileNode) : Location → Option FileNode
  | [] => some node
  | name :: rest =>
    match node with
    | .directory entries => (entries.lookup name).bind (·.at? rest)
    | _ => none

/-- A file tree, the directory in it that relative paths start from, which is no link, and the codecs
for its files by their names. -/
structure FileTree where
  root : FileNode
  workingDirectory : Location
  codecs : Text → Option Codec := fun _ => none

inductive PathError where
  | missing
  | notDirectory
  | tooLong
  | tooManyLinks
  deriving DecidableEq, Repr

def byteLength (text : Text) : Nat := text.foldl (fun n c => n + c.utf8Size) 0

/-- The text of a path that is looked up has fewer bytes than this. -/
def pathByteLimit : Nat := 4096

def nameByteLimit : Nat := 255

def linkLimit : Nat := 40

def startOf (directory : Location) (text : Text) : Location :=
  if text.head? = some '/' then [] else directory

namespace FileTree

/-- Follows names from a location to an entry. Every name must be that of an entry, in a directory; an
empty name and a point lead nowhere else. `followLink` goes on at a link, given the directory that holds
it, its target and the names behind it. -/
def followNames (tree : FileTree)
    (followLink : Location → Text → List Text → Except PathError Location) (location : Location) :
    List Text → Except PathError Location
  | [] => .ok location
  | name :: rest =>
    match tree.root.at? location with
    | some (.directory entries) =>
      if name = [] || name = ['.'] then tree.followNames followLink location rest
      else if name = ['.', '.'] then tree.followNames followLink location.dropLast rest
      else if nameByteLimit < byteLength name then .error .tooLong
      else match entries.lookup name with
        | none => .error .missing
        | some (.link target) => followLink location target rest
        | some _ => tree.followNames followLink (location ++ [name]) rest
    | _ => .error .notDirectory

/-- Follows names to an entry that is no link, over at most the given number of links. The names in the
target of a link come before those behind the link. -/
def follow (tree : FileTree) : Nat → Location → List Text → Except PathError Location
  | 0 => tree.followNames fun _ _ _ => .error .tooManyLinks
  | links + 1 => tree.followNames fun directory target rest =>
    tree.follow links (startOf directory target) (Text.splitOn '/' target ++ rest)

def walkNames (location : Location) : List Text → Location
  | [] => location
  | name :: rest =>
    if name = [] || name = ['.'] then walkNames location rest
    else if name = ['.', '.'] then walkNames location.dropLast rest
    else walkNames (location ++ [name]) rest

/-- Where names lead by name alone, if they are put behind a location as the text that they make up. A
text that begins with a slash starts from the root again. -/
def walkText (location : Location) (names : List Text) : Location :=
  match names with
  | [] :: _ :: _ => walkNames [] names
  | _ => walkNames location names

/-- A location, and how the path to it is spelled: from so many directories above the working directory,
or from the root. -/
structure Place where
  above : Option Nat
  location : Location
  deriving DecidableEq, Repr

def Place.child (place : Place) (name : Text) : Place := { place with location := place.location ++ [name] }

def Place.startOf (directory : Place) (target : Text) : Place :=
  if target.head? = some '/' then ⟨none, []⟩ else directory

/-- One step up, by name alone. If there are no names left, the path starts one directory higher. -/
def parent (tree : FileTree) (place : Place) : Place where
  above := place.above.map fun steps =>
    if place.location.length + steps = tree.workingDirectory.length
    then min (steps + 1) tree.workingDirectory.length else steps
  location := place.location.dropLast

/-- Follows names as far as they lead to links, and by name alone elsewhere, and tells whether all links
could be followed. `followLink` tells where the link of a name in a directory leads. Behind a link that
cannot be followed all goes by name alone. -/
def followNamesLeniently (tree : FileTree) (followLink : Place → Text → Text → Place × Bool) (place : Place) :
    List Text → Place × Bool
  | [] => (place, true)
  | name :: rest =>
    if name = [] || name = ['.'] then tree.followNamesLeniently followLink place rest
    else if name = ['.', '.'] then tree.followNamesLeniently followLink (tree.parent place) rest
    else match tree.root.at? (place.child name).location with
      | some (.link target) =>
        match followLink place name target with
        | (goal, true) => tree.followNamesLeniently followLink goal rest
        | (goal, false) => ({ goal with location := walkText goal.location rest }, false)
      | _ => tree.followNamesLeniently followLink (place.child name) rest

def allBut (link : Place) (links : List Place) : List Place := links.filter (· ≠ link)

theorem length_allBut_lt {link : Place} {links : List Place} (h : link ∈ links) :
    (allBut link links).length < links.length :=
  List.length_filter_lt_length_iff_exists.mpr ⟨link, h, by simp⟩

/-- Follows names, whether or not there are entries, and the links that have not been seen on the way. A
link that leads back to itself cannot be followed. -/
def followLeniently (tree : FileTree) (unseen : List Place) : Place → List Text → Place × Bool :=
  tree.followNamesLeniently fun directory name target =>
    if _h : directory.child name ∈ unseen then
      tree.followLeniently (allBut (directory.child name) unseen) (directory.startOf target)
        (Text.splitOn '/' target)
    else (directory.child name, false)
termination_by unseen.length
decreasing_by exact length_allBut_lt _h

def linkPlaces (tree : FileTree) : List Place :=
  (none :: (List.range (tree.workingDirectory.length + 1)).map some).flatMap fun above =>
    tree.root.links.map (⟨above, ·⟩)

/-- The place of the entry that a text leads to, seen from a directory. The empty text leads to
nothing. -/
def locate (tree : FileTree) (directory : Location) (text : Text) : Except PathError Location :=
  if text = [] then .error .missing
  else if pathByteLimit ≤ byteLength text then .error .tooLong
  else tree.follow linkLimit (startOf directory text) (Text.splitOn '/' text)

def open? (tree : FileTree) (directory : Location) (text : Text) : Except PathError FileNode :=
  match tree.locate directory text with
  | .error error => .error error
  | .ok location =>
    match tree.root.at? location with
    | some node => .ok node
    | none => .error .missing

/-- Where a path leads with its links followed, and whether all of them could be. -/
def realPath (tree : FileTree) (path : Path) : Place × Bool :=
  tree.followLeniently tree.linkPlaces
    (if path.isAbsolute then ⟨none, []⟩ else ⟨some 0, tree.workingDirectory⟩) path.names

def resolve (tree : FileTree) (path : Path) : Location := (tree.realPath path).1.location

/-- The links of the path lead in a circle, and the system finds that there are too many of them. -/
def isCircular (tree : FileTree) (path : Path) : Bool :=
  match tree.realPath path with
  | (_, true) => false
  | (place, false) =>
    match tree.open? tree.workingDirectory (Path.ofLocation place.location).toText with
    | .error .tooManyLinks => true
    | _ => false

end FileTree

end SourceOrigin
