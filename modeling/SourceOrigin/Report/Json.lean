import SourceOrigin.Text.Decimal
import SourceOrigin.Text.Quoted

/-! JSON documents written on several lines in ASCII. -/
namespace SourceOrigin

inductive JsonValue where
  | number (n : Nat)
  | string (text : Text)
  | array (items : List Text)
  | object (members : List (Text × JsonValue))

namespace JsonValue

def escapeUnit (unit : Nat) : Text := '\\' :: 'u' :: Text.hexadecimal 4 unit

/-- One character of a string. All that is not printable ASCII is escaped, in two units if it lies
beyond U+FFFF. -/
def escapeChar (c : Char) : Text :=
  let n := c.toNat
  match c with
  | '"' => ['\\', '"']
  | '\\' => ['\\', '\\']
  | '\n' => ['\\', 'n']
  | '\r' => ['\\', 'r']
  | '\t' => ['\\', 't']
  | '\x08' => ['\\', 'b']
  | '\x0c' => ['\\', 'f']
  | c =>
    if 0x20 ≤ n && n < 0x7F then [c]
    else if n < 0x10000 then escapeUnit n
    else escapeUnit (0xD800 + (n - 0x10000) / 0x400) ++ escapeUnit (0xDC00 + (n - 0x10000) % 0x400)

def escape (text : Text) : Text := '"' :: text.flatMap escapeChar ++ ['"']

def newLine (depth : Nat) : Text := '\n' :: List.replicate (2 * depth) ' '

/-- Items between brackets, each on a line of its own; nothing stands between the brackets if there
are no items. -/
def enclose (depth : Nat) (left right : Char) (items : List Text) : Text :=
  if items.isEmpty then [left, right]
  else
    let separator := ',' :: newLine (depth + 1)
    left :: newLine (depth + 1) ++ separator.intercalate items ++ newLine depth ++ [right]

mutual
def render (depth : Nat) : JsonValue → Text
  | number n => Text.decimal n
  | string text => escape text
  | array items => enclose depth '[' ']' (items.map escape)
  | object members => enclose depth '\x7b' '\x7d' (renderMembers (depth + 1) members)

def renderMembers (depth : Nat) : List (Text × JsonValue) → List Text
  | [] => []
  | (name, value) :: rest =>
    (escape name ++ [':', ' '] ++ render depth value) :: renderMembers depth rest
end

end JsonValue

end SourceOrigin
