import SourceOrigin.Encoding.Utf8
import SourceOrigin.Text.Decimal
import SourceOrigin.Text.Quoted

/-! Text encodings: their names, decoding, and the wording of a decoding failure. -/
namespace SourceOrigin

/-- The encodings in which source files may be read. `utf8Marked` is UTF-8 that may begin with a
byte-order mark, which is dropped. -/
inductive Encoding where
  | utf8
  | utf8Marked
  | latin1
  | ascii
  deriving DecidableEq, Repr

inductive CodecError where
  | undecodable (message : String)
  | failed (kind message : String)
  deriving DecidableEq, Repr

/-- A codec beyond the encodings. It yields texts, or is registered for other purposes. -/
inductive Codec where
  | text (decode : Bytes → Except CodecError Text)
  | binary

namespace Encoding

/-- Names are compared without regard to the case of their letters, and all that is neither a letter
nor a digit nor a point counts as one underscore. -/
def normalizeName (name : Text) : Text :=
  let isNamePart (c : Char) : Bool := c.isAlphanum || c = '.'
  let pieces := (name.map fun c => if isNamePart c then c.toLower else '_').foldr
    (fun c rest => if c = '_' && rest.head? = some '_' then rest else c :: rest) []
  (pieces.dropWhile (· = '_')).reverse.dropWhile (· = '_') |>.reverse

def properName : Encoding → String
  | utf8 => "utf_8"
  | utf8Marked => "utf_8_sig"
  | latin1 => "latin_1"
  | ascii => "ascii"

def aliases : Encoding → List String
  | utf8 => ["cp65001", "u8", "utf", "utf8", "utf8_ucs2", "utf8_ucs4"]
  | utf8Marked => []
  | latin1 =>
    ["8859", "cp819", "csisolatin1", "ibm819", "iso8859", "iso8859_1", "iso_8859_1",
      "iso_8859_1_1987", "iso_ir_100", "l1", "latin", "latin1"]
  | ascii =>
    ["646", "ansi_x3.4_1968", "ansi_x3.4_1986", "ansi_x3_4_1968", "cp367", "csascii", "ibm367",
      "iso646_us", "iso_646.irv_1991", "iso_ir_6", "us", "us_ascii"]

/-- The encoding of the given name, if there is one. In an alias a point may stand for an
underscore. -/
def ofName? (name : Text) : Option Encoding :=
  let normalized := normalizeName name
  let pointless := normalized.map fun c => if c = '.' then '_' else c
  [utf8Marked, utf8, latin1, ascii].find? fun encoding =>
    encoding.properName.toList = normalized ||
      encoding.aliases.any fun other => other.toList = normalized || other.toList = pointless

def markBytes : Bytes := [0xEF, 0xBB, 0xBF]

def decodeAsciiFrom (position : Nat) (done : Text) : Bytes → Except DecodeFault Text
  | [] => .ok done.reverse
  | b :: rest =>
    if b.toNat < 0x80 then decodeAsciiFrom (position + 1) (Char.ofNat b.toNat :: done) rest
    else .error ⟨position, position + 1, b, .notAscii⟩

/-- The text that the bytes encode. In UTF-8 with a mark, positions count from behind the mark, and
bytes that are only the beginning of a mark are no text. -/
def decode : Encoding → Bytes → Except DecodeFault Text
  | utf8, bytes => Utf8.decode bytes
  | utf8Marked, bytes =>
    if bytes.length < 3 && bytes.isPrefixOf markBytes then .ok []
    else if markBytes.isPrefixOf bytes then Utf8.decode (bytes.drop 3)
    else Utf8.decode bytes
  | latin1, bytes => .ok (bytes.map fun b => Char.ofNat b.toNat)
  | ascii, bytes => decodeAsciiFrom 0 [] bytes

def label : Encoding → String
  | utf8 | utf8Marked => "utf-8"
  | latin1 => "latin-1"
  | ascii => "ascii"

end Encoding

def DecodeReason.message : DecodeReason → String
  | invalidStart => "invalid start byte"
  | invalidContinuation => "invalid continuation byte"
  | unexpectedEnd => "unexpected end of data"
  | notAscii => "ordinal not in range(128)"

def DecodeFault.message (encoding : Encoding) (fault : DecodeFault) : String :=
  let place :=
    if fault.start + 1 = fault.stop then
      s!"byte 0x{String.ofList (Text.hexadecimal 2 fault.first.toNat)} in position {fault.start}"
    else s!"bytes in position {fault.start}-{fault.stop - 1}"
  s!"'{encoding.label}' codec can't decode {place}: {fault.reason.message}"

end SourceOrigin
