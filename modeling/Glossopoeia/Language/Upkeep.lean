import Glossopoeia.Language.Build

/-!
# Keeping a lexicon in step

The lexicon of a finished document can be declined, derived, and rid of either kind of words again.
Each of these changes the document in place, leaves its lexicon without repetitions and in the order
of the document's own alphabet, and says by how many entries it has changed.
-/

set_option autoImplicit false

namespace Glossopoeia

/-- A change of a document that may fail.  The document is changed in place, so that what was done
to it before a failure stays done. -/
abbrev Change (α : Type) := ExceptT Error (StateM Language) α

/-- The outcome of a change, and the document as it is then. -/
def Change.perform {α : Type} (c : Change α) (l : Language) : Except Error α × Language :=
  Id.run (StateT.run c.run l)

/-- What can be done to the lexicon of a finished document. -/
inductive Upkeep where
  /-- Add the declined forms of all words. -/
  | decline
  /-- Add the derived words, with their declined forms if the language has those. -/
  | derive
  /-- Remove the declined forms. -/
  | removeDeclined
  /-- Remove the derived words and all their forms. -/
  | removeDerived
deriving DecidableEq, Repr

namespace Language

/-- The entries, each once and in the order of the language's alphabet. -/
def tidy (l : Language) (entries : List LexiconEntry) : List LexiconEntry :=
  (LexicalOrder.mk l.lexicalOrder).sortEntries (dedupLexicon entries)

/-- The declined forms of all words. -/
def declinedWords (l : Language) : Except Error (List LexiconEntry) := do
  let speller ← Speller.ofSoundMap l.soundMap
  let decliner ← Decliner.ofAffixMap l.affixMap speller
  return Blueprint.declinedForms decliner l.lexicon

/-- The derived words, with their declined forms if the language has those. -/
def derivedFamilies (l : Language) : Except Error (List LexiconEntry) := do
  let speller ← Speller.ofSoundMap l.soundMap
  deriveWords l.derivedWords l.derivationalAffixes l.lexicon l.affixMap speller l.declined

/-- Leave each entry once, in the order of the language's alphabet. -/
def tidyLexicon : StateM Language Unit := modify fun l ↦ { l with lexicon := l.tidy l.lexicon }

/-- Add entries, and mark the document; the number is that by which the lexicon has grown. -/
def addEntries (entries : List LexiconEntry) (mark : Language → Language) :
    StateM Language Nat := do
  let before := (← get).lexicon.length
  modify fun l ↦ { l with lexicon := l.lexicon ++ entries }
  tidyLexicon
  modify mark
  return (← get).lexicon.length - before

/-- Keep only some entries, and mark the document; the number is that of the entries removed. -/
def keepEntries (keep : LexiconEntry → Bool) (mark : Language → Language) :
    StateM Language Nat := do
  let before := (← get).lexicon.length
  modify fun l ↦ { l with lexicon := l.lexicon.filter keep }
  tidyLexicon
  modify mark
  return before - (← get).lexicon.length

end Language

namespace Upkeep

open Glossopoeia.Language

/-- What a document says about its lexicon once this has been done. -/
def mark : Upkeep → Language → Language
  | decline, l => { l with declined := true }
  | derive, l => { l with derived := true }
  | removeDeclined, l => { l with declined := false }
  | removeDerived, l => { l with derived := false }

/-- The work itself.  All that can fail comes before the document is touched. -/
def work : Upkeep → Change Nat
  | decline => do
    let forms ← liftExcept (← get).declinedWords
    addEntries forms decline.mark
  | derive => do
    let words ← liftExcept (← get).derivedFamilies
    addEntries words derive.mark
  | removeDeclined => keepEntries (fun e ↦ !e.declined) removeDeclined.mark
  | removeDerived => keepEntries (fun e ↦ !e.derived) removeDerived.mark

/-- The outcome, and the document as it is then. -/
def run (op : Upkeep) (l : Language) : Except Error Nat × Language := op.work.perform l

end Upkeep

namespace Language

/-- The changed document and the number of a change, if it does not fail. -/
def afterUpkeep (l : Language) (op : Upkeep) : Except Error (Language × Nat) :=
  let (outcome, after) := op.run l
  outcome.map fun n ↦ (after, n)

/-- Add the declined forms of all words; the number is that of the entries added. -/
def declineLexicon (l : Language) : Except Error (Language × Nat) := l.afterUpkeep .decline

/-- Add the derived words, with their declined forms if the language has those; the number is that
of the entries added. -/
def deriveLexicon (l : Language) : Except Error (Language × Nat) := l.afterUpkeep .derive

/-- Remove the declined forms; the number is that of the entries removed. -/
def removeDeclined (l : Language) : Language × Nat :=
  let (n, after) := (keepEntries (fun e ↦ !e.declined) Upkeep.removeDeclined.mark).run l
  (after, n)

/-- Remove the derived words and all their forms; the number is that of the entries removed. -/
def removeDerived (l : Language) : Language × Nat :=
  let (n, after) := (keepEntries (fun e ↦ !e.derived) Upkeep.removeDerived.mark).run l
  (after, n)

end Language

end Glossopoeia
