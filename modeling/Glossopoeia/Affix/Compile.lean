import Glossopoeia.Affix.CellForm
import Glossopoeia.Phonology.SoundClass
import Glossopoeia.SoundMap.Speller

/-!
# Compiling affixes

A written affix becomes a rule for a language: its classes decide what a vowel is, and its speller
writes what is added.
-/

set_option autoImplicit false

namespace Glossopoeia

open Text Phonology

/-- How a language tells vowels from consonants, and how it is spelled. -/
structure Orthography where
  /-- The vowels of phonetic forms. -/
  phonetic : SoundClass
  /-- The vowels of spelled forms. -/
  spelled : SoundClass
  /-- The spelling. -/
  speller : Speller
deriving DecidableEq

namespace Orthography

/-- The pattern that answers a question about a word of the given script. -/
def boundaryPattern (s : SoundClass) : Boundary → String
  | .initialVowel => String.ofList ('^' :: s.vowel)
  | .finalVowel => String.ofList (s.vowel ++ ['$'])
  | .initialConsonant => String.ofList ('^' :: s.consonant)
  | .finalConsonant => String.ofList (s.consonant ++ ['$'])

/-- How an addition is spelled. -/
def spellAdd (o : Orthography) (add : List Char) : String :=
  String.ofList (o.speller.spellChars (trim add))

/-- The kind and the rule of a written affix. -/
def ruleOf (o : Orthography) : CellForm → AffixKind × AffixRule
  | .plain kind add => (kind, .plain (String.ofList add) (o.spellAdd add))
  | .conditional kind boundary a b =>
    (kind, .conditional (boundaryPattern o.phonetic boundary) (boundaryPattern o.spelled boundary)
      (String.ofList a) (o.spellAdd a) (String.ofList b) (o.spellAdd b))

/-- The pattern of a word's last vowel, the consonants after it and whatever follows. -/
def lastVowelPattern (s : SoundClass) : String :=
  String.ofList ('(' :: (s.vowel ++ ')' :: '(' :: (s.consonant ++ "+)(\\S*)\\s*$".toList)))

/-- The rule that doubles the last vowel. -/
def lengthening (o : Orthography) : AffixRule :=
  .substitute (lastVowelPattern o.phonetic) (lastVowelPattern o.spelled) "$1$1$2$3" "$1$1$2$3"

/-- Compile a table cell.  An empty cell, or a lone hyphen, has no kind of its own and the empty
rule. -/
def compileCell (o : Orthography) (rule : List Char) :
    Except Error (Option AffixKind × AffixRule) :=
  match CellForm.read? rule with
  | some form => let (kind, affix) := o.ruleOf form; .ok (some kind, affix)
  | none =>
    if CellForm.isLengthening rule then .ok (some .replacement, o.lengthening)
    else if trim rule = [] ∨ trim rule = ['-'] then .ok (none, .empty)
    else .error (.invalidAffixRule (String.ofList rule))

/-- Compile a line `TAG = affix` of the derivational affixes. -/
def compileDerivational (o : Orthography) (line : String) :
    Except Error (String × DerivationalAffix) :=
  match cut '=' line.toList with
  | none => .error (.invalidDerivationalAffix line)
  | some (tag, rule) =>
    match CellForm.readDerivational? (trim rule) with
    | none => .error (.invalidDerivationalAffix line)
    | some form =>
      let (kind, affix) := o.ruleOf form
      let position : WordEnd := if kind = .front then .front else .back
      .ok (String.ofList (trim tag), ⟨position, affix⟩)

/-- The derivational affixes of a list of lines, blank ones skipped; of two with one tag the later
holds. -/
def compileDerivationals (o : Orthography) (lines : List String) :
    Except Error DerivationalAffixMap := do
  let entries ← (lines.filter fun l ↦ !allBlank l.toList).mapM o.compileDerivational
  return Dictionary.ofList entries

end Orthography

end Glossopoeia
