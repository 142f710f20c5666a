import SourceOrigin.FileTree.Basic
import SourceOrigin.Source.Unit
import SourceOrigin.Text.LineBreak

/-! Source units from files: reading and decoding, and what can go wrong. -/
namespace SourceOrigin

inductive ReadFault where
  | unreachable (error : PathError)
  | isDirectory
  | undecodable (encoding : Encoding) (fault : DecodeFault)
  | rejected (message : String)
  deriving DecidableEq, Repr

/-- Why there is no source unit for a path. Only the first kind is a fault of the file. -/
inductive LoadError where
  | unreadable (path : Text) (fault : ReadFault)
  | unknownEncoding (name : Text)
  | binaryEncoding (name : Text)
  | codecFailure (kind message : String)
  | nulInPath
  | nulInEncoding
  | circularLinks (path : Text)
  deriving DecidableEq, Repr

def PathError.message : PathError → String
  | missing => "[Errno 2] No such file or directory"
  | notDirectory => "[Errno 20] Not a directory"
  | tooLong => "[Errno 36] File name too long"
  | tooManyLinks => "[Errno 40] Too many levels of symbolic links"

def ReadFault.message (path : Text) : ReadFault → String
  | unreachable error => s!"{error.message}: {String.ofList (Text.quote path)}"
  | isDirectory => s!"[Errno 21] Is a directory: {String.ofList (Text.quote path)}"
  | undecodable encoding fault => fault.message encoding
  | rejected message => message

def LoadError.message : LoadError → String
  | unreadable path fault => s!"Cannot read {String.ofList path}: {fault.message path}"
  | unknownEncoding name => s!"unknown encoding: {String.ofList name}"
  | binaryEncoding name =>
    s!"'{String.ofList name}' is not a text encoding; use codecs.open() to handle arbitrary codecs"
  | codecFailure _ message => message
  | nulInPath => "embedded null byte"
  | nulInEncoding => "embedded null character"
  | circularLinks path => s!"Symlink loop from {String.ofList (Text.quote path)}"

namespace FileTree

def readBytes (tree : FileTree) (path : Path) : Except ReadFault Bytes :=
  match tree.open? tree.workingDirectory path.toText with
  | .error error => .error (.unreachable error)
  | .ok (.file content) => .ok content
  | .ok _ => .error .isDirectory

def decode (tree : FileTree) (path : Path) (encodingName : Text) (content : Bytes) : Except LoadError Text :=
  match Encoding.ofName? encodingName with
  | some encoding =>
    (encoding.decode content).mapError fun fault => .unreadable path.toText (.undecodable encoding fault)
  | none =>
    match tree.codecs encodingName with
    | none => .error (.unknownEncoding encodingName)
    | some .binary => .error (.binaryEncoding encodingName)
    | some (.text decode) =>
      (decode content).mapError fun
        | .undecodable message => .unreadable path.toText (.rejected message)
        | .failed kind message => .codecFailure kind message

/-- Reads a file in the named encoding, with every line feed form as a line feed, and lexes it. A file
that cannot be opened is reported before an encoding that does not exist; a NUL, in the encoding's name
or in the path, is reported before all else. -/
def readUnit (tree : FileTree) (path : Path) (encodingName : Text) : Except LoadError SourceUnit :=
  if encodingName.contains '\x00' then .error .nulInEncoding
  else if path.holdsNul then .error .nulInPath
  else match tree.readBytes path with
  | .error fault => .error (.unreadable path.toText fault)
  | .ok content =>
    match tree.decode path encodingName content with
    | .error error => .error error
    | .ok text => .ok (SourceUnit.ofText (Text.unifyBreaks text) (some path.toText))

def resolutionError? (tree : FileTree) (path : Path) : Option LoadError :=
  if path.holdsNul then some .nulInPath
  else if tree.isCircular path then some (.circularLinks (Path.ofLocation (tree.resolve path)).toText)
  else none

end FileTree

end SourceOrigin
