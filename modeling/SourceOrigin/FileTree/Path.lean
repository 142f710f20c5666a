import SourceOrigin.Text.Basic

/-! Paths as they are written: normal form, text, order, and the extension of a file name. -/
namespace SourceOrigin

/-- A path in normal form. The root is empty for a relative path; exactly two slashes at the front are
a root of their own. Names are not empty and not a single point; two points stay, since the name
before them may be a link. -/
structure Path where
  root : Text
  names : List Text
  deriving DecidableEq, Repr

namespace Path

def namesIn (text : Text) : List Text :=
  (Text.splitOn '/' text).filter fun name => !name.isEmpty && name != ['.']

def ofText (text : Text) : Path :=
  let root : Text :=
    match text with
    | '/' :: '/' :: '/' :: _ => ['/']
    | '/' :: '/' :: _ => ['/', '/']
    | '/' :: _ => ['/']
    | _ => []
  ⟨root, namesIn text⟩

def isAbsolute (path : Path) : Bool := !path.root.isEmpty

def joinNames (names : List Text) : Text := ['/'].intercalate names

def toText (path : Path) : Text :=
  if path.root.isEmpty && path.names.isEmpty then ['.'] else path.root ++ joinNames path.names

def ofLocation (names : List Text) : Path := ⟨['/'], names⟩

def components (path : Path) : List Text :=
  if path.isAbsolute then path.root :: path.names else path.names

def componentsLe : List Text → List Text → Bool
  | [], _ => true
  | _ :: _, [] => false
  | a :: as, b :: bs => if a = b then componentsLe as bs else Text.le a b

def le (a b : Path) : Bool := componentsLe a.components b.components

/-- The path holds a NUL, which no entry can have in its name. -/
def holdsNul (path : Path) : Bool := path.names.any (·.contains '\x00')

def joinText (directory name : Text) : Text :=
  if directory.getLast? = some '/' then directory ++ name else directory ++ '/' :: name

/-- What begins at the last point of a file name. The points at the front of the name begin nothing. -/
def extension (name : Text) : Text :=
  let behind := name.reverse.takeWhile (· != '.')
  let before := name.reverse.drop behind.length
  match before with
  | '.' :: stem => if stem.all (· = '.') then [] else '.' :: behind.reverse
  | _ => []

end Path

end SourceOrigin
