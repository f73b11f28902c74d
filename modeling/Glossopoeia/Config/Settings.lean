import Glossopoeia.Config.TomlReader
import Glossopoeia.Language.Build

/-!
# Settings

What a settings file may say about building a language.  Keys that mean nothing are ignored, and
whatever is not said has a default.
-/

set_option autoImplicit false

namespace Glossopoeia

/-- The settings of a build. -/
structure Settings where
  /-- Are derived words added? -/
  derive : Bool
  /-- Are declined forms added? -/
  decline : Bool
  /-- The alphabet of a language without one of its own. -/
  defaultAlphabet : String
  /-- The language whose sounds are used when speaking. -/
  preferredLanguage : Option String
  /-- The voice of one speech engine. -/
  polly : Option String
  /-- The voice of the other. -/
  espeak : Option String
deriving DecidableEq, Repr

namespace Settings

/-- The settings that hold if nothing is said. -/
def default : Settings := ⟨true, false, LexicalOrder.defaultAlphabet, none, none, none⟩

/-- A setting that is a truth value. -/
def bool (fields : Toml.Fields) (key : String) (otherwise : Bool) : Option Bool :=
  match fields.lookup key with
  | none => some otherwise
  | some (.bool b) => some b
  | some _ => none

/-- A setting that is a string and may be missing. -/
def text (fields : Toml.Fields) (key : String) : Option (Option String) :=
  match fields.lookup key with
  | none => some none
  | some (.text s) => some (some s)
  | some _ => none

/-- The two voices, from a table of them or from an array of both. -/
def voices : Option Toml → Option (Option String × Option String)
  | none => some (none, none)
  | some (.table _ fields) => ofFields fields
  | some (.inline fields) => ofFields fields
  | some (.list [.text polly, .text espeak]) => some (some polly, some espeak)
  | some .moment => some (none, none)
  | some _ => none
where
  /-- The voices of a table. -/
  ofFields (fields : Toml.Fields) : Option (Option String × Option String) := do
    return (← text fields "polly", ← text fields "espeak")

/-- The settings of a root table. -/
def ofFields (fields : Toml.Fields) : Option Settings := do
  let derive ← bool fields "derive" default.derive
  let decline ← bool fields "decline" default.decline
  let alphabet ← text fields "default_alphabet"
  let preferred ← text fields "preferred_language"
  let (polly, espeak) ← voices (fields.lookup "voices")
  return {
    derive := derive
    decline := decline
    defaultAlphabet := alphabet.getD default.defaultAlphabet
    preferredLanguage := preferred
    polly := polly
    espeak := espeak }

/-- Read the text of a settings file. -/
def read (text : String) : Except Error Settings :=
  match (Toml.read? text).bind ofFields with
  | some s => .ok s
  | none => .error .invalidSettings

/-- What the settings say to a build. -/
def buildOptions (s : Settings) : BuildOptions where
  derive := s.derive
  decline := s.decline
  voice := s.polly
  espeakLanguage := s.espeak
  preferredLanguage := s.preferredLanguage
  defaultAlphabet := s.defaultAlphabet

end Settings

end Glossopoeia
