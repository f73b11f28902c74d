import Glossopoeia.Lexicon.WordNotation
import Glossopoeia.Lexicon.Order
import Glossopoeia.SoundMap.Speller

/-!
# The word list

The word list has one word a line.  A comma in a parenthesised note of two words is no comma between
glosses: it is written as a semicolon before the lines are read.
-/

set_option autoImplicit false

namespace Glossopoeia.WordList

open Text

/-- A word between blanks that may be missing, and what follows it. -/
def spacedWord (cs : List Char) : Option (List Char × List Char) :=
  let gap := cs.takeWhile isBlank
  let rest := cs.drop gap.length
  let word := rest.takeWhile isWordChar
  let rest := rest.drop word.length
  let after := rest.takeWhile isBlank
  if word.isEmpty then none else some (gap ++ word ++ after, rest.drop after.length)

/-- A note `(a, b)` after its opening parenthesis: the texts before and after the comma, up to the
closing parenthesis, and what follows it. -/
def note? (cs : List Char) : Option (List Char × List Char × List Char) := do
  let (first, rest) ← spacedWord cs
  match rest with
  | ',' :: rest =>
    let (second, rest) ← spacedWord rest
    match rest with
    | ')' :: rest => some (first, second, rest)
    | _ => none
  | _ => none

/-- The text with the commas of its notes written as semicolons.  Every step consumes a character,
so the length of the text is fuel enough. -/
def protectFrom : Nat → List Char → List Char
  | _, [] => []
  | 0, cs => cs
  | fuel + 1, c :: rest =>
    match if c = '(' then note? rest else none with
    | some (first, second, rest) =>
      '(' :: (first ++ ';' :: (second ++ ')' :: protectFrom fuel rest))
    | none => c :: protectFrom fuel rest

/-- The text with the commas of its notes written as semicolons. -/
def protectCommas (cs : List Char) : List Char := protectFrom cs.length cs

/-- The lines of a list, without word joiners and without blank lines. -/
def listLines (text : String) : List String :=
  ((lines (protectCommas text.toList)).map fun line ↦
    line.filter (· != LexicalOrder.wordJoiner)).filterMap fun line ↦
      if allBlank line then none else some (String.ofList line)

/-- The parts of speech of a word list. -/
def partsOfSpeech (list : List String) : Except Error StringSet := do
  let words ← list.mapM WordNotation.read
  return .ofList (words.map WordNotation.partOfSpeech)

/-- The roots that a word is entered as, one for each gloss. -/
def rootsOf (speller : Speller) (word : WordNotation) : List LexiconEntry :=
  let spelled := speller.spell word.phonetic
  word.glosses.map fun gloss ↦ .root word.phonetic spelled gloss word.partOfSpeech

/-- The entries of a word list. -/
def entries (list : List String) (speller : Speller) : Except Error (List LexiconEntry) := do
  let words ← list.mapM WordNotation.read
  return words.flatMap (rootsOf speller)

end Glossopoeia.WordList
