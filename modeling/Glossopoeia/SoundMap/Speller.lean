import Glossopoeia.SoundMap.Basic
import Glossopoeia.Pattern.Reader
import Glossopoeia.Pattern.Template
import Glossopoeia.Error

/-!
# Spelling

A sound map is compiled once for spelling.  Its rules then run in order, each over what the one
before it made, and the result is trimmed.  A rule without a spelling pattern takes no part.
-/

set_option autoImplicit false

namespace Glossopoeia

open Text

/-- A replacement of all matches of a pattern. -/
structure Substitution where
  /-- What is replaced. -/
  pattern : Pattern
  /-- What replaces it. -/
  template : Template
deriving DecidableEq, Repr

/-- The text with all matches replaced. -/
def Substitution.apply (r : Substitution) (cs : List Char) : List Char :=
  r.pattern.replaceAll r.template cs

/-- A pattern of the notation of affixes and spelling. -/
def compilePattern (source : String) : Except Error Pattern :=
  match Pattern.read? .regular source with
  | some p => .ok p
  | none => .error (.invalidPattern source)

/-- The replacement of a pattern's matches by a text that may name groups. -/
def compileSubstitution (source replacement : String) : Except Error Substitution := do
  let p ← compilePattern source
  return ⟨p, .ofBraced (Template.braced replacement.toList)⟩

/-- A sound map compiled for spelling. -/
structure Speller where
  /-- The rules, in order. -/
  steps : List Substitution
deriving DecidableEq, Repr, Inhabited

namespace Speller

/-- Compile a sound map for spelling. -/
def ofSoundMap (soundMap : SoundMap) : Except Error Speller := do
  let spelling := soundMap.filter fun r ↦ r.spellingPattern != ""
  let steps ← spelling.mapM fun r ↦ compileSubstitution r.spellingPattern r.romanization
  return ⟨steps⟩

/-- How a phonetic text is spelled, before it is trimmed. -/
def replaceAll (s : Speller) (cs : List Char) : List Char :=
  s.steps.foldl (fun cs step ↦ step.apply cs) cs

/-- How a phonetic text is spelled. -/
def spellChars (s : Speller) (cs : List Char) : List Char := trim (s.replaceAll cs)

/-- How a phonetic text is spelled. -/
def spell (s : Speller) (phonetic : String) : String := onString s.spellChars phonetic

end Speller

end Glossopoeia
