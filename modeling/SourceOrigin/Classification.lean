import SourceOrigin.Cancellation
import SourceOrigin.Config
import SourceOrigin.Log
import SourceOrigin.Source.Unit

/-! Classification: the three heuristics that tell generated source from handwritten, and their
evaluation in order under a cancellation token. -/
namespace SourceOrigin

inductive Heuristic where
  | fileName
  | headerComment
  | emptiness
  deriving DecidableEq, Repr

def Heuristic.all : List Heuristic := [.fileName, .headerComment, .emptiness]

/-- The part of a path behind the last separator; both kinds of slash separate. -/
def baseName (path : Text) : Text := Text.afterLast (fun c => c = '/' || c = '\\') path

/-- The first pattern that is found in the name or cannot be compiled decides. -/
def matchesSome (engine : Pattern.Engine) (name : Text) : List Text → Except PatternError Bool
  | [] => .ok false
  | written :: rest =>
    match Pattern.compile engine written with
    | .error error => .error error
    | .ok occursIn => if occursIn name then .ok true else matchesSome engine name rest

/-- The base name of the file marks it as generated. A missing or empty path never does, and then no
pattern is compiled. -/
def isGeneratedFileName (config : Config) (path : Option Text) : Except PatternError Bool :=
  match path with
  | none | some [] => .ok false
  | some path => matchesSome config.engine (baseName path) config.fileNamePatterns

def Trivia.isPlainComment (trivia : Trivia) : Bool := trivia.isOneOf [.lineComment, .blockComment]

def hasGeneratedComment (config : Config) (tree : SyntaxTree) : Bool :=
  (tree.firstToken.getD tree.endOfFile).leadingTrivia.any fun trivia =>
    trivia.isPlainComment && config.headerMarkers.any (Text.occursIn · trivia.text)

def isEmptySource (tree : SyntaxTree) : Bool :=
  tree.firstTokenOrEnd.any fun token =>
    token.kind = .endOfFile && (firstSignificantIndex token.leadingTrivia).isNone

namespace Heuristic

def holds (config : Config) (tree : SyntaxTree) : Heuristic → Except PatternError Bool
  | fileName => isGeneratedFileName config tree.filePath
  | headerComment => .ok (hasGeneratedComment config tree)
  | emptiness => .ok (isEmptySource tree)

def label : Heuristic → String
  | fileName => "file name"
  | headerComment => "header comment"
  | emptiness => "empty"

def record (heuristic : Heuristic) (tree : SyntaxTree) : LogRecord :=
  ⟨.debug, .classification,
    shownPath tree.filePath ++ ": generated (".toList ++ heuristic.label.toList ++ [')']⟩

end Heuristic

inductive ClassifyError where
  | cancelled
  | badPattern (error : PatternError)
  deriving DecidableEq, Repr

structure Classified where
  outcome : Except ClassifyError Bool
  token : CancellationToken
  log : Log := []

/-- Evaluates the given heuristics until one finds its sign, and polls the token before each. -/
def classifyBy (config : Config) (tree : SyntaxTree) (token : CancellationToken) :
    List Heuristic → Classified
  | [] => ⟨.ok false, token, []⟩
  | heuristic :: rest =>
    let token := token.poll
    if token.cancelled then ⟨.error .cancelled, token, []⟩
    else match heuristic.holds config tree with
      | .error error => ⟨.error (.badPattern error), token, []⟩
      | .ok true => ⟨.ok true, token, [heuristic.record tree]⟩
      | .ok false => classifyBy config tree token rest

def classify (config : Config) (tree : SyntaxTree) (token : CancellationToken) : Classified :=
  classifyBy config tree token Heuristic.all

end SourceOrigin
