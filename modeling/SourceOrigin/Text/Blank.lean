import SourceOrigin.Text.Basic

/-! White space: the 29 blank characters, trimming, and the first word of a text. -/
namespace SourceOrigin.Text

/-- The blank characters are the Unicode white space together with the four information separators
U+001C to U+001F. The zero-width characters U+200B, U+180E and U+FEFF are not among them. -/
def isBlank (c : Char) : Bool :=
  let n := c.toNat
  (9 ≤ n && n ≤ 13) || (28 ≤ n && n ≤ 32) || n = 0x85 || n = 0xA0 || n = 0x1680 ||
    (0x2000 ≤ n && n ≤ 0x200A) || n = 0x2028 || n = 0x2029 || n = 0x202F || n = 0x205F || n = 0x3000

abbrev trimLeft (text : Text) : Text := text.dropWhile isBlank

abbrev firstWord (text : Text) : Text := (trimLeft text).takeWhile (!isBlank ·)

abbrev afterWord (text : Text) : Text := (trimLeft text).dropWhile (!isBlank ·)

end SourceOrigin.Text
