import Glossopoeia.Derivation.Component
import Glossopoeia.Declension.Decliner

/-!
# Derivation

A derivation such as `mansion, palace : n = big house:n-AUG` makes a new root: the parts of its
right side are looked up and put together, each with its affix.  What one rule makes, the next can
use.
-/

set_option autoImplicit false

namespace Glossopoeia

open Text

/-- A derivational affix, compiled. -/
structure CompiledAffix where
  /-- Where it is put. -/
  position : WordEnd
  /-- What it does. -/
  transform : Transform
deriving DecidableEq, Repr

/-- The derivational affixes, compiled, and the spelling of what they make. -/
structure Deriver where
  /-- The affixes by their tags. -/
  affixes : Dictionary CompiledAffix
  /-- The spelling. -/
  speller : Speller
deriving DecidableEq

/-- A derivation, read. -/
structure DerivationRule where
  /-- The line that it stands in. -/
  line : String
  /-- What the new root means. -/
  glosses : List (List Char)
  /-- Its part of speech. -/
  partOfSpeech : List Char
  /-- What it is made of. -/
  parts : List Component
deriving DecidableEq, Repr

/-- Read a derivation from a trimmed line. -/
def DerivationRule.read (line : List Char) : Except Error DerivationRule :=
  let malformed := Error.malformedDerivation (String.ofList line)
  match cut '=' line with
  | none => .error malformed
  | some (left, right) =>
    match cut ':' left with
    | none => .error malformed
    | some (english, pos) =>
      .ok ⟨String.ofList line, split ',' english, pos, Component.readAll right⟩

namespace Deriver

/-- Compile an affix. -/
def compileAffix (a : DerivationalAffix) : Except Error CompiledAffix := do
  let t ← Transform.ofRule a.rule
  return ⟨a.position, t⟩

/-- Compile the derivational affixes. -/
def ofAffixes (affixes : DerivationalAffixMap) (speller : Speller) : Except Error Deriver := do
  let entries ← affixes.entries.mapM fun (tag, a) ↦ do
    let compiled ← compileAffix a
    return (tag, compiled)
  return ⟨Dictionary.ofList entries, speller⟩

/-- The form that a part contributes. -/
def partForm (d : Deriver) (index : WordIndex) (part : Component) : Except Error (List Char) := do
  let affix ← match part.affix with
    | none => pure none
    | some tag =>
      match d.affixes.get? tag with
      | some a => pure (some a)
      | none => throw (.unknownAffix tag)
  let root ← index.resolve part.word part.partOfSpeech
  let form := root.phonetic.toList
  return match affix with
    | some a => a.transform.apply a.position form form
    | none => form

/-- How the new root sounds. -/
def formOf (d : Deriver) (index : WordIndex) (parts : List Component) :
    Except Error (List Char) := do
  let forms ← parts.mapM (d.partForm index)
  return forms.flatten

/-- The new root, once for each gloss. -/
def rootsOf (d : Deriver) (rule : DerivationRule) (form : List Char) : List LexiconEntry :=
  let phonetic := String.ofList form
  let spelled := d.speller.spell phonetic
  let partOfSpeech := String.ofList rule.partOfSpeech
  rule.glosses.map fun gloss ↦
    { LexiconEntry.root phonetic spelled (String.ofList gloss) partOfSpeech with
      derived := true
      metadata := .object [("source", .object [("derived_word", .text rule.line)])] }

/-- The roots that a line makes; a blank one makes none. -/
def deriveLine (d : Deriver) (index : WordIndex) (raw : String) :
    Except Error (List LexiconEntry) := do
  let line := trim raw.toList
  if line.isEmpty then return []
  let rule ← DerivationRule.read line
  let form ← d.formOf index rule.parts
  if form.isEmpty then throw (.malformedDerivation rule.line)
  return d.rootsOf rule form

/-- The entries that a new root brings: itself, and behind it its declined forms if there is a
decliner. -/
def familyOf (decliner : Option Decliner) (root : LexiconEntry) :
    Except Error (List LexiconEntry) :=
  match decliner with
  | none => .ok [root]
  | some decliner => do
    let forms ← decliner.decline (.entry root) true
    return root :: forms

/-- Enter new roots one after the other: each is registered, and brings its family. -/
def enterRoots (decliner : Option Decliner) :
    WordIndex → List LexiconEntry → Except Error (WordIndex × List LexiconEntry)
  | index, [] => .ok (index, [])
  | index, root :: rest => do
    let family ← familyOf decliner root
    let (index, others) ← enterRoots decliner (index.register root) rest
    return (index, family ++ others)

/-- The entries that lines make, each line with the roots of those before it. -/
def deriveLines (d : Deriver) (decliner : Option Decliner) :
    WordIndex → List String → Except Error (List LexiconEntry)
  | _, [] => .ok []
  | index, raw :: rest => do
    let roots ← d.deriveLine index raw
    let (index, entries) ← enterRoots decliner index roots
    let others ← d.deriveLines decliner index rest
    return entries ++ others

/-- The entries that rules make from a lexicon, the new roots declined as well if there is a
decliner. -/
def deriveEntries (d : Deriver) (decliner : Option Decliner) (rules : List String)
    (lexicon : List LexiconEntry) : Except Error (List LexiconEntry) :=
  d.deriveLines decliner (WordIndex.ofLexicon lexicon) rules

/-- The new roots that rules make from a lexicon. -/
def derive (d : Deriver) (rules : List String) (lexicon : List LexiconEntry) :
    Except Error (List LexiconEntry) :=
  d.deriveEntries none rules lexicon

end Deriver

/-- The new roots that rules make from a lexicon, declined as well if `alsoDecline` is set. -/
def deriveWords (rules : List String) (affixes : DerivationalAffixMap)
    (lexicon : List LexiconEntry) (affixMap : AffixMap) (speller : Speller) (alsoDecline : Bool) :
    Except Error (List LexiconEntry) := do
  let deriver ← Deriver.ofAffixes affixes speller
  if alsoDecline then
    let decliner ← Decliner.ofAffixMap affixMap speller
    deriver.deriveEntries (some decliner) rules lexicon
  else deriver.derive rules lexicon

end Glossopoeia
