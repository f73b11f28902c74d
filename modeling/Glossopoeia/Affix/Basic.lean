import Glossopoeia.Dictionary

/-!
# Affixes

An affix rule says what is added to a word, and may make it depend on the word or replace part of
the word instead.  The slots of a part of speech are the independent choices of its declension; each
slot offers rules under the names of the forms they make.
-/

set_option autoImplicit false

namespace Glossopoeia

/-- What the rules of a slot do to a word. -/
inductive AffixKind where
  /-- They are put before it. -/
  | front
  /-- They are put after it. -/
  | back
  /-- They are words of their own and leave it alone. -/
  | particle
  /-- They replace part of it. -/
  | replacement
deriving DecidableEq, Repr

namespace AffixKind

/-- The name that documents give a kind. -/
def name : AffixKind → String
  | front => "prefix"
  | back => "suffix"
  | particle => "particle"
  | replacement => "replacement"

/-- All kinds. -/
def all : List AffixKind := [front, back, particle, replacement]

/-- The kind of the given name. -/
def ofName? (s : String) : Option AffixKind := all.find? (·.name == s)

end AffixKind

/-- An affix rule.  The spelled parts say how the phonetic ones are written. -/
inductive AffixRule where
  /-- Replace what matches. -/
  | substitute (pattern spelledPattern replacement spelledReplacement : String)
  /-- Add one thing if the pattern matches and another if it does not. -/
  | conditional (pattern spelledPattern thenAdd thenSpelled elseAdd elseSpelled : String)
  /-- Add something. -/
  | plain (add spelled : String)
  /-- Leave the word as it is. -/
  | empty
deriving DecidableEq, Repr, Inhabited

namespace AffixRule

/-- Does the rule leave every word as it is? -/
def isEmpty (r : AffixRule) : Bool := r = empty

/-- The pattern that is looked for in the phonetic form, if there is one. -/
def pattern? : AffixRule → Option String
  | substitute p .. => some p
  | conditional p .. => some p
  | _ => none

end AffixRule

/-- A rule under the name of the form that it makes. -/
structure DeclensionRule where
  /-- The name of the form. -/
  declension : String
  /-- The rule. -/
  affix : AffixRule
deriving DecidableEq, Repr, Inhabited

/-- A choice between rules of one kind. -/
structure AffixSlot where
  /-- The kind. -/
  kind : AffixKind
  /-- The rules to choose from. -/
  rules : List DeclensionRule
deriving DecidableEq, Repr

/-- The slots of each part of speech, in order. -/
abbrev AffixMap := Dictionary (List AffixSlot)

/-- The end of a word that a derivational affix is put to. -/
inductive WordEnd where
  /-- The beginning. -/
  | front
  /-- The end. -/
  | back
deriving DecidableEq, Repr

namespace WordEnd

/-- The name that documents give an end. -/
def name : WordEnd → String
  | front => "PREFIX"
  | back => "SUFFIX"

/-- The end of the given name. -/
def ofName? (s : String) : Option WordEnd := [front, back].find? (·.name == s)

end WordEnd

/-- An affix that forms new words. -/
structure DerivationalAffix where
  /-- Where it is put. -/
  position : WordEnd
  /-- What it does. -/
  rule : AffixRule
deriving DecidableEq, Repr

/-- The derivational affixes by their tags. -/
abbrev DerivationalAffixMap := Dictionary DerivationalAffix

/-- The word with something added at one end. -/
def attach (position : WordEnd) (add stem : List Char) : List Char :=
  match position with
  | .front => add ++ stem
  | .back => stem ++ add

end Glossopoeia
