import Glossopoeia.SoundMap.Speller

/-!
# Sounding out

Sounding out undoes spelling: the rules of a sound map run backwards, last to first, each replacing
letters by sounds.  Their patterns may recall groups, as a doubled vowel needs.  A rule without a
pattern for this direction, or with the placeholder of the stress marks, takes no part.

A sound map is refused if one of its patterns cannot be read.  Once it is compiled, sounding out
does not fail: no match is given up for the number of ways that had to be tried.
-/

set_option autoImplicit false

namespace Glossopoeia

open Text

/-- A sound map compiled for sounding out. -/
structure Sounder where
  /-- The rules, in the order of the sound map. -/
  steps : List Substitution
deriving DecidableEq, Repr, Inhabited

/-- Can the rule be read backwards? -/
def SoundRule.isSounding (r : SoundRule) : Bool :=
  r.soundingPattern != "" && r.soundingPattern != SoundRule.unmatchable

namespace Sounder

/-- Compile a rule for sounding out. -/
def compileRule (r : SoundRule) : Except Error Substitution :=
  match Pattern.read? .extended r.soundingPattern with
  | some p => .ok ⟨p, .direct r.phoneme.toList⟩
  | none => .error (.invalidSoundingPattern r.soundingPattern)

/-- Compile a sound map for sounding out. -/
def ofSoundMap (soundMap : SoundMap) : Except Error Sounder := do
  let steps ← (soundMap.filter SoundRule.isSounding).mapM compileRule
  return ⟨steps⟩

/-- The phonetic form of a spelled text. -/
def soundOutChars (s : Sounder) (cs : List Char) : List Char :=
  s.steps.foldr (fun step cs ↦ step.apply cs) cs

/-- The phonetic form of a spelled text. -/
def soundOut (s : Sounder) (spelled : String) : String := onString s.soundOutChars spelled

end Sounder

end Glossopoeia
