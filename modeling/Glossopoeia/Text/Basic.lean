import Glossopoeia.Text.Blank

/-!
# Cutting texts

Texts are stored as `String` and worked on as lists of characters.  This module holds the cuts that
all notations share: trimming, cutting at a separator, splitting into words and into lines.
-/

set_option autoImplicit false

namespace Glossopoeia.Text

/-! ## Trimming -/

/-- The text without leading blanks. -/
def trimLeft (cs : List Char) : List Char := cs.dropWhile isBlank

/-- The text without trailing blanks. -/
def trimRight (cs : List Char) : List Char := (cs.reverse.dropWhile isBlank).reverse

/-- The text without leading and trailing blanks. -/
def trim (cs : List Char) : List Char := trimRight (trimLeft cs)

/-- Is the text empty but for blanks? -/
def allBlank (cs : List Char) : Bool := cs.all isBlank

/-! ## Cutting -/

/-- What stands before and after the first `sep`. -/
def cut (sep : Char) : List Char → Option (List Char × List Char)
  | [] => none
  | c :: rest =>
    if c = sep then some ([], rest) else (cut sep rest).map fun (a, b) ↦ (c :: a, b)

/-- What stands before and after the last `sep`. -/
def cutLast (sep : Char) (cs : List Char) : Option (List Char × List Char) :=
  (cut sep cs.reverse).map fun (b, a) ↦ (a.reverse, b.reverse)

/-- What stands before the first `sep`; the whole text if there is none. -/
def before (sep : Char) (cs : List Char) : List Char := cs.takeWhile (· != sep)

/-- What follows `start`, if the text begins with it. -/
def stripStart : List Char → List Char → Option (List Char)
  | [], cs => some cs
  | p :: ps, c :: cs => if p = c then stripStart ps cs else none
  | _ :: _, [] => none

/-- Does `part` stand somewhere in the text? -/
def contains (part : List Char) : List Char → Bool
  | [] => part.isEmpty
  | c :: cs => (stripStart part (c :: cs)).isSome || contains part cs

/-! ## Splitting -/

/-- The pieces between the separators: one more than there are separators. -/
def split (sep : Char) (cs : List Char) : List (List Char) := cs.splitOnP (· == sep)

/-- The runs of characters that are not blank. -/
def words (cs : List Char) : List (List Char) :=
  (cs.splitOnP isBlank).filter fun word ↦ !word.isEmpty

/-- The lines of a text; one more than it has line feeds. -/
def lines (cs : List Char) : List (List Char) := split '\n' cs

/-! ## The same on strings -/

/-- A map of character lists as a map of strings. -/
def onString (f : List Char → List Char) (s : String) : String := String.ofList (f s.toList)

/-- The string without leading and trailing blanks. -/
def trimString (s : String) : String := onString trim s

/-- The runs of a string that are not blank. -/
def wordsOf (s : String) : List String := (words s.toList).map String.ofList

/-- The lines of a string. -/
def linesOf (s : String) : List String := (lines s.toList).map String.ofList

example : words " a  bc ".toList = ["a".toList, "bc".toList] := by decide

example : lines "a\n\nb".toList = ["a".toList, [], "b".toList] := by decide

end Glossopoeia.Text
