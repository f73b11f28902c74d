import Glossopoeia.Json.Decode

/-!
# Sound maps

A sound map ties how a language sounds to how it is spelled, by rules that are applied one after the
other.  Read forwards a rule replaces sounds by letters; read backwards it replaces letters by
sounds.
-/

set_option autoImplicit false

namespace Glossopoeia

/-- A rule of a sound map.  The replacement texts may name groups of the patterns, as in `$1`. -/
structure SoundRule where
  /-- What replaces a match of `soundingPattern`. -/
  phoneme : String
  /-- What replaces a match of `spellingPattern`. -/
  romanization : String
  /-- What is looked for in a phonetic text. -/
  spellingPattern : String
  /-- What is looked for in a spelled text. -/
  soundingPattern : String
deriving DecidableEq, Repr, Inhabited

/-- A list of rules, in the order of spelling. -/
abbrev SoundMap := List SoundRule

namespace SoundRule

/-- The rule of a phoneme that is always spelled alike. -/
def literal (phoneme romanization : String) : SoundRule :=
  ⟨phoneme, romanization, phoneme, romanization⟩

/-- Stands for the pattern of a rule that has no way back. -/
def unmatchable : String := "&&&&&&"

/-- The mark of primary stress. -/
def primaryStress : Char := 'ˈ'

/-- The mark of secondary stress. -/
def secondaryStress : Char := 'ˌ'

/-- The rule that leaves a stress mark out of the spelling. -/
def silence (mark : Char) : SoundRule := ⟨mark.toString, "", mark.toString, unmatchable⟩

/-- How a rule is written in a document. -/
def toJson (r : SoundRule) : Json :=
  .object
    [("phoneme", .text r.phoneme), ("romanization", .text r.romanization),
     ("spelling_regex", .text r.spellingPattern),
     ("pronunciation_regex", .text r.soundingPattern)]

/-- How a rule is read from a document. -/
def record : Record SoundRule where
  blank := ⟨"", "", "", ""⟩
  fields :=
    [.of "phoneme" .required Decoder.text fun s r ↦ { r with phoneme := s },
     .of "romanization" .required Decoder.text fun s r ↦ { r with romanization := s },
     .of "spelling_regex" .required Decoder.text fun s r ↦ { r with spellingPattern := s },
     .of "pronunciation_regex" .required Decoder.text fun s r ↦ { r with soundingPattern := s }]

end SoundRule

/-- The rules that every sound map begins with: stress is not spelled. -/
def SoundMap.stressMarks : SoundMap :=
  [.silence SoundRule.primaryStress, .silence SoundRule.secondaryStress]

end Glossopoeia
