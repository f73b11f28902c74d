import Glossopoeia.Text.Case.Lower
import Glossopoeia.Text.Case.Upper
import Glossopoeia.Text.Case.Fold
import Glossopoeia.Text.Case.Context

/-!
# Case of a text

`lowercase` maps a whole text; only for the capital sigma does the neighbourhood of a character
matter.  `capitalize` maps character by character, so its sigma is never final.
-/

set_option autoImplicit false

namespace Glossopoeia.Text

/-- Does the text begin with a cased character, seen past those that case ignores? -/
def meetsCased (cs : List Char) : Bool :=
  match cs.dropWhile isCaseIgnorable with
  | c :: _ => isCased c
  | [] => false

/-- Lower-case forms of `rest`, where `before` is the text to its left, nearest character first. -/
def lowerFrom (before : List Char) : List Char → List Char
  | [] => []
  | c :: rest =>
    let form :=
      if c = '\u03a3' then
        if meetsCased before && !meetsCased rest then ['\u03c2'] else ['\u03c3']
      else lowerChar c
    form ++ lowerFrom (c :: before) rest

/-- The lower-case form of a text. -/
def lowercase (cs : List Char) : List Char := lowerFrom [] cs

/-- Is `c` its own upper-case form?  Capitals are, and so is everything without case. -/
def isUpperForm (c : Char) : Bool := upperChar c == [c]

/-- First character in upper case, the others in lower case. -/
def capitalize : List Char → List Char
  | [] => []
  | c :: rest => upperChar c ++ rest.flatMap lowerChar

example : capitalize "first Person".toList = "First person".toList := by decide

example : lowercase "ΟΔΟΣ".toList = "οδος".toList := by decide

example : isUpperForm 'ß' = false ∧ isUpperForm '7' = true := by decide

end Glossopoeia.Text
