import Glossopoeia.Json.Decode

/-!
# Errors

Whatever is wrong with the notation a language is described in stops the work: a malformed rule, a
word that cannot be found, a pattern that is none.  Each cause is a constructor with what it is
about, and `Error.message` has its wording.
-/

set_option autoImplicit false

namespace Glossopoeia

/-- Why a language could not be built or changed. -/
inductive Error where
  /-- A spelling rule has no `>`. -/
  | unmatchedSpellingRule (line : String)
  /-- What follows the `/` of a spelling rule is no context. -/
  | unmatchedContext (marker line : String)
  /-- A table cell is in none of the forms of an affix. -/
  | invalidAffixRule (rule : String)
  /-- A line of the derivational affixes is in none of their forms. -/
  | invalidDerivationalAffix (line : String)
  /-- A cell's path has an abbreviation that no label of its table has. -/
  | unmappedDeclension (abbreviation line : String)
  /-- A word table has no part of speech. -/
  | missingPartOfSpeech (line : String)
  /-- A pattern of spelling or of an affix is none. -/
  | invalidPattern (source : String)
  /-- A pattern of sounding out is none. -/
  | invalidSoundingPattern (source : String)
  /-- A line of the word list lacks its colon or its equals sign. -/
  | malformedWord (line : String)
  /-- A derivation lacks its colon or its equals sign, or derives nothing. -/
  | malformedDerivation (line : String)
  /-- No root has the gloss that a derivation names. -/
  | unresolvedWord (word : String) (partOfSpeech : Option String)
  /-- A derivation names an affix that does not exist. -/
  | unknownAffix (tag : String)
  /-- A value is none of the shapes of a word. -/
  | unsupportedWord (value : String)
  /-- A document is not of the required shape. -/
  | undecodable (cause : DecodeError)
  /-- The settings are not written as settings are. -/
  | invalidSettings
  /-- A file cannot be read or written. -/
  | unavailable
deriving DecidableEq, Repr

/-- The wording of an error.  Where only the reader of a format knows what is wrong there is
none. -/
def Error.message : Error → Option String
  | unmatchedSpellingRule line => some ("Unmatched spelling rule: '" ++ line ++ "'")
  | unmatchedContext marker line =>
    some ("Unmatched sound change pattern '" ++ marker ++ "' in spelling rule '" ++ line ++ "'")
  | invalidAffixRule rule => some ("Invalid affix rule: '" ++ rule ++ "'")
  | invalidDerivationalAffix line => some ("Invalid derivation rule: '" ++ line ++ "'")
  | unmappedDeclension abbreviation line =>
    some ("Unmapped declension abbreviation '" ++ abbreviation ++ "' in line '" ++ line ++ "'")
  | missingPartOfSpeech line =>
    some ("Grammar rule found without part of speech set: '" ++ line ++ "'")
  | invalidPattern source => some ("Invalid regular expression '" ++ source ++ "'")
  | invalidSoundingPattern source => some ("Pronunciation pattern '" ++ source ++ "' failed")
  | malformedWord line => some ("Malformed word notation: '" ++ line ++ "'")
  | malformedDerivation line => some ("Malformed derived word rule: '" ++ line ++ "'")
  | unresolvedWord word none => some ("Unable to locate '" ++ word ++ "'")
  | unresolvedWord word (some pos) =>
    some ("Unable to locate '" ++ word ++ "' with part of speech '" ++ pos ++ "'")
  | unknownAffix tag => some ("Unknown derivational affix '" ++ tag ++ "'")
  | unsupportedWord value => some ("Unsupported word shape for declension: " ++ value)
  | undecodable cause => cause.message
  | invalidSettings => none
  | unavailable => none

end Glossopoeia
