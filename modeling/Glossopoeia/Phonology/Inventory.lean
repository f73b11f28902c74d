import Glossopoeia.Phonology.Symbol
import Glossopoeia.Dictionary

/-!
# Inventories of sounds

The sounds of a language, sorted into the groups that its document lists.
-/

set_option autoImplicit false

namespace Glossopoeia.Phonology

/-- The consonants and vowels of a language. -/
structure Inventory where
  /-- Pulmonic consonants. -/
  pulmonic : List String
  /-- Other consonants. -/
  otherConsonants : List String
  /-- Vowels of one sound. -/
  vowels : List String
  /-- Vowels that glide from one sound to another. -/
  diphthongs : List String
deriving DecidableEq, Repr

/-- The marks after which a vowel is still one sound: length, half length, rhotic hook and
non-syllabic mark. -/
def vowelModifiers : List Char := ['\u02d0', '\u02d1', '\u02de', '\u032f']

/-- How a vowel of the language's list counts. -/
inductive VowelShape where
  /-- A vowel of one sound. -/
  | simple
  /-- A glide. -/
  | diphthong
  /-- No vowel of the tables. -/
  | unknown
deriving DecidableEq, Repr

/-- How a listed vowel counts: by its base if it is one character, perhaps with a modifier. -/
def vowelShape (vowel : String) : VowelShape :=
  let simpleIf (c : Char) : VowelShape := if kindOf c = some .vowel then .simple else .unknown
  match vowel.toList with
  | [c] => simpleIf c
  | [c, m] => if vowelModifiers.contains m then simpleIf c else .diphthong
  | _ => .diphthong

/-- The inventory of listed consonants and vowels; what the tables do not have is left out. -/
def inventory (consonants vowels : List String) : Inventory where
  pulmonic := consonants.filter fun c ↦ classify c = some .pulmonicConsonant
  otherConsonants := consonants.filter fun c ↦ classify c = some .otherConsonant
  vowels := vowels.filter fun v ↦ vowelShape v = .simple
  diphthongs := vowels.filter fun v ↦ vowelShape v = .diphthong

/-- The inventory as a document holds it. -/
def Inventory.toDictionary (i : Inventory) : Dictionary (List String) :=
  .ofList
    [("p_consonants", i.pulmonic), ("np_consonants", i.otherConsonants), ("vowels", i.vowels),
     ("v_diphthongs", i.diphthongs)]

end Glossopoeia.Phonology
