import Glossopoeia.Affix.Basic
import Glossopoeia.SoundMap.Speller

/-!
# What an affix does to a word

An affix rule is compiled once, its pattern included, and then applied to phonetic forms.  A
condition looks at the whole form; what is added or replaced concerns the stem, which may be the
form without its stress mark.
-/

set_option autoImplicit false

namespace Glossopoeia

/-- A compiled affix rule. -/
inductive Transform where
  /-- Add one text if the pattern occurs in the form, another if it does not. -/
  | choose (pattern : Pattern) (thenAdd elseAdd : List Char)
  /-- Replace what matches in the stem. -/
  | replace (r : Substitution)
  /-- Add a text. -/
  | add (text : List Char)
  /-- Keep the form. -/
  | keep
deriving DecidableEq, Repr

namespace Transform

/-- Compile an affix rule. -/
def ofRule : AffixRule → Except Error Transform
  | .substitute p _ r _ => (compileSubstitution p r).map replace
  | .conditional p _ a _ b _ => (compilePattern p).map fun p ↦ choose p a.toList b.toList
  | .plain a _ => .ok (add a.toList)
  | .empty => .ok keep

/-- The form after the affix is put to it. -/
def apply (position : WordEnd) (form stem : List Char) : Transform → List Char
  | choose p a b => attach position (if p.occursIn form then a else b) stem
  | replace r => r.apply stem
  | add text => attach position text stem
  | keep => form

end Transform

end Glossopoeia
