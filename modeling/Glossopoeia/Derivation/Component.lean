import Glossopoeia.Derivation.WordIndex

/-!
# The parts of a derivation

The right side of a derivation is a row of parts such as `big house:n-AUG`: a word, perhaps its part
of speech, and perhaps the tag of an affix.  A hyphen between two words in small letters separates
them as a blank does; but pairs of words do not overlap, so in a chain of words only every other
hyphen does.
-/

set_option autoImplicit false

namespace Glossopoeia

open Text

/-- A part of a derivation. -/
structure Component where
  /-- The gloss that names the root. -/
  word : String
  /-- The coarse part of speech of the root, if it is given. -/
  partOfSpeech : Option String
  /-- The tag of the affix, if there is one. -/
  affix : Option String
deriving DecidableEq, Repr

namespace Component

/-- Read a part.  A part of speech may stand with the word or with the affix; the one with the word
counts. -/
def read (token : List Char) : Component :=
  let (word, affix) := match cut '-' token with
    | some (word, affix) => (word, some affix)
    | none => (token, none)
  let (affix, affixPos) := match affix with
    | none => (none, none)
    | some affix =>
      match cut ':' affix with
      | some (tag, pos) => (some tag, some pos)
      | none => (some affix, none)
  let (word, pos) := match cut ':' word with
    | some (word, pos) => (word, some pos)
    | none => (word, affixPos)
  { word := String.ofList (trim word)
    partOfSpeech := pos.map fun pos ↦ coarsePartOfSpeech (String.ofList pos)
    affix := affix.map fun tag ↦ String.ofList (trim tag) }

/-- Is `c` a small letter of the basic alphabet? -/
def isSmallLetter (c : Char) : Bool := 'a' ≤ c && c ≤ 'z'

/-- The text with a blank for each hyphen between two runs of small letters.  A run that has been
taken as the second of a pair is not the first of another.  Every step consumes a character, so the
length of the text is fuel enough. -/
def splitHyphensFrom : Nat → List Char → List Char
  | _, [] => []
  | 0, cs => cs
  | fuel + 1, c :: rest =>
    if isSmallLetter c then
      let run := c :: rest.takeWhile isSmallLetter
      let after := rest.dropWhile isSmallLetter
      match after with
      | '-' :: d :: more =>
        if isSmallLetter d then
          let second := d :: more.takeWhile isSmallLetter
          run ++ ' ' :: (second ++ splitHyphensFrom fuel (more.dropWhile isSmallLetter))
        else run ++ splitHyphensFrom fuel after
      | _ => run ++ splitHyphensFrom fuel after
    else c :: splitHyphensFrom fuel rest

/-- The text with a blank for each hyphen between two runs of small letters. -/
def splitHyphens (cs : List Char) : List Char := splitHyphensFrom cs.length cs

/-- The parts of a right side, still unread. -/
def tokenize (cs : List Char) : List (List Char) := words (splitHyphens cs)

/-- The parts of a right side. -/
def readAll (cs : List Char) : List Component := (tokenize cs).map read

end Component

end Glossopoeia
