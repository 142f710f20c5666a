import SourceOrigin.Text.Basic

/-! Trivia, the pieces of source text without meaning of their own, and the tokens that carry them. -/
namespace SourceOrigin

inductive TriviaKind where
  | whitespace
  | endOfLine
  | lineComment
  | blockComment
  | lineDocComment
  | blockDocComment
  | directive
  | disabledText
  deriving DecidableEq, Repr

structure Trivia where
  kind : TriviaKind
  text : Text
  deriving DecidableEq, Repr

def Trivia.isOneOf (trivia : Trivia) (kinds : List TriviaKind) : Bool := kinds.contains trivia.kind

def Trivia.isLayout (trivia : Trivia) : Bool := trivia.isOneOf [.whitespace, .endOfLine]

def firstSignificantIndex (trivia : List Trivia) : Option Nat := trivia.findIdx? (!·.isLayout)

inductive TokenKind where
  | token
  | endOfFile
  deriving DecidableEq, Repr

structure Token where
  kind : TokenKind
  text : Text := []
  leadingTrivia : List Trivia := []
  deriving DecidableEq, Repr

abbrev Token.isZeroWidth (token : Token) : Bool := token.text.isEmpty

end SourceOrigin
