import SourceOrigin.Source.Lexer
import SourceOrigin.Text.Decimal
import SourceOrigin.Text.Quoted

/-! Source units: what a host shows of a parsed file, and the unit read from a text. -/
namespace SourceOrigin

/-- What the heuristics see of a source unit. A host that has parsed the file may present a view of
its own; it always has an end-of-file token. -/
structure SyntaxTree where
  filePath : Option Text
  /-- The first token that has text. -/
  firstToken : Option Token
  /-- The first token when tokens without text count too. -/
  firstTokenOrEnd : Option Token
  endOfFile : Token
  deriving DecidableEq, Repr

/-- A source file as far as it was lexed: to its first token. -/
structure SourceUnit where
  filePath : Option Text
  text : Text
  firstToken : Option Token
  endOfFile : Token
  deriving DecidableEq, Repr

def byteOrderMark : Char := '\uFEFF'

def withoutMark : Text → Text
  | c :: rest => if c = byteOrderMark then rest else c :: rest
  | [] => []

theorem withoutMark_of_head? {text : Text} (h : ∀ c ∈ text.head?, c ≠ byteOrderMark) :
    withoutMark text = text := by
  cases text with
  | nil => rfl
  | cons c text => rw [withoutMark, if_neg (h c rfl)]

namespace SourceUnit

/-- The unit of a text, without a byte-order mark at its front. Its trivia belong to the first token,
or to the end-of-file token if there is no other. -/
def ofText (text : Text) (filePath : Option Text := none) : SourceUnit :=
  let text := withoutMark text
  match Lexer.read text with
  | (trivia, none) => ⟨filePath, text, none, ⟨.endOfFile, [], trivia⟩⟩
  | (trivia, some tokenText) =>
    ⟨filePath, text, some ⟨.token, tokenText, trivia⟩, ⟨.endOfFile, [], []⟩⟩

def firstTokenOrEnd (unit : SourceUnit) : Token := unit.firstToken.getD unit.endOfFile

def tree (unit : SourceUnit) : SyntaxTree :=
  ⟨unit.filePath, unit.firstToken, some unit.firstTokenOrEnd, unit.endOfFile⟩

def summary (unit : SourceUnit) : Text :=
  let path := (unit.filePath.map Text.quote).getD "None".toList
  "SourceUnit(file_path=".toList ++ path ++ ", length=".toList ++ Text.decimal unit.text.length ++ [')']

end SourceUnit

end SourceOrigin
