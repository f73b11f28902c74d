import Glossopoeia.Phonology.Symbol
import Glossopoeia.Dictionary

/-!
# Vowel and consonant classes

Rule notation writes `V` for a vowel and `C` for a consonant.  A sound class is a set of vowels;
from it come the two pattern classes that the letters stand for.  A consonant is whatever is no
vowel, so the consonant class is the complement of the vowel class and lists no consonant.
-/

set_option autoImplicit false

namespace Glossopoeia.Phonology

/-- The two ways a word is written. -/
inductive Script where
  /-- By its sounds. -/
  | phonetic
  /-- By the letters of the language. -/
  | spelled
deriving DecidableEq, Repr

/-- What stands between the brackets of the classes of a language that lists no vowels: of the vowel
class and of the consonant class. -/
def Script.defaultBodies : Script → String × String
  | phonetic => ("aioeu\u032f\u02d0", "aioeu\u02d0\u032f")
  | spelled => ("aeiou\u0304", "aeiou\u0304")

/-- The vowels of one script. -/
structure SoundClass where
  /-- The script. -/
  script : Script
  /-- The vowels. -/
  members : StringSet
deriving DecidableEq

namespace SoundClass

/-- Does a character have a meaning of its own inside a class? -/
def isSpecial (c : Char) : Bool := ['\\', ']', '[', '^', '-', '&', '~'].contains c

/-- The text with a backslash before each character that has a meaning of its own. -/
def escaped (cs : List Char) : List Char :=
  cs.flatMap fun c ↦ if isSpecial c then ['\\', c] else [c]

/-- The listed vowels, as they stand between the brackets of a class. -/
def body (s : SoundClass) : List Char := s.members.toList.flatMap fun m ↦ escaped m.toList

/-- The pattern class of the vowels. -/
def vowel (s : SoundClass) : List Char :=
  let inner := if s.members.entries.isEmpty then s.script.defaultBodies.1.toList else s.body
  '[' :: (inner ++ [']'])

/-- The pattern class of the consonants. -/
def consonant (s : SoundClass) : List Char :=
  let inner := if s.members.entries.isEmpty then s.script.defaultBodies.2.toList else s.body
  '[' :: '^' :: (inner ++ [']'])

/-- Is `symbol` one of the listed vowels? -/
def contains (s : SoundClass) (symbol : String) : Bool := s.members.contains symbol

/-- The text with each `C` and each `V` replaced by the class it stands for. -/
def substitute (s : SoundClass) (cs : List Char) : List Char :=
  cs.flatMap fun c ↦ if c = 'C' then s.consonant else if c = 'V' then s.vowel else [c]

/-- The phonetic class of lists of vowel symbols. -/
def ofSymbols (lists : List String) : SoundClass where
  script := .phonetic
  members := .ofList ((symbols (lists.flatMap String.toList)).map String.ofList)

/-- The class of the vowels that a language is spelled with. -/
def ofSpelled (vowels : List String) : SoundClass := ⟨.spelled, .ofList vowels⟩

end SoundClass

end Glossopoeia.Phonology
