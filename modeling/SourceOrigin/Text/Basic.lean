import SourceOrigin.Sorting

/-! Text as a list of code points, with the few searches the heuristics need. -/
namespace SourceOrigin

/-- Text under analysis is a sequence of Unicode code points, so every length and position counts
code points. -/
abbrev Text := List Char

namespace Text

abbrev startsWith (start : Text) (text : Text) : Bool := start.isPrefixOf text

def occursIn (part : Text) : Text → Bool
  | [] => part.isEmpty
  | c :: rest => startsWith part (c :: rest) || occursIn part rest

theorem length_dropWhile_le (p : Char → Bool) (text : Text) :
    (text.dropWhile p).length ≤ text.length :=
  (List.dropWhile_suffix p).sublist.length_le

/-- What follows the last character of `text` that satisfies `p`; the whole text if there is none. -/
def afterLast (p : Char → Bool) (text : Text) : Text :=
  (text.reverse.takeWhile (!p ·)).reverse

/-- The text cut at every occurrence of `separator`; the pieces may be empty. -/
def splitOn (separator : Char) (text : Text) : List Text :=
  text.foldr
    (fun c pieces =>
      if c = separator then [] :: pieces
      else match pieces with
        | [] => [[c]]
        | first :: rest => (c :: first) :: rest)
    [[]]

def padRight (width : Nat) (text : Text) : Text :=
  text ++ List.replicate (width - text.length) ' '

def padLeft (width : Nat) (text : Text) : Text :=
  List.replicate (width - text.length) ' ' ++ text

def le : Text → Text → Bool
  | [], _ => true
  | _ :: _, [] => false
  | c :: r, d :: s => if c = d then le r s else decide (c < d)

/-- Of equal neighbours only the last is kept. -/
def dropRepeats : List Text → List Text
  | a :: b :: rest => if a = b then dropRepeats (b :: rest) else a :: dropRepeats (b :: rest)
  | rest => rest

def sortedDistinct (texts : List Text) : List Text := dropRepeats (sortBy le texts)

end Text

end SourceOrigin
