import Glossopoeia.Derivation.OrderedIndex
import Glossopoeia.Error

/-!
# Finding roots by gloss

A derivation names its parts by gloss, perhaps with a part of speech.  The index binds each gloss,
and each gloss with its coarse part of speech, to the root registered last under it; keys stay in
the order in which they were first registered, and that order decides between several glosses that
begin as the named one does.
-/

set_option autoImplicit false

namespace Glossopoeia

open Text

/-- The part of speech without the gender of nouns: whatever begins with `n` is `n`, but `num`. -/
def coarsePartOfSpeech (partOfSpeech : String) : String :=
  let tag := trim partOfSpeech.toList
  if tag.head? = some 'n' ∧ tag ≠ "num".toList then "n" else String.ofList tag

/-- A gloss as derivations write it. -/
def glossKey (english : String) : String :=
  onString (fun cs ↦ cs.map fun c ↦ if c = ' ' then '_' else c) english

/-- The roots by gloss, and by gloss and coarse part of speech. -/
structure WordIndex where
  /-- The roots by gloss. -/
  byGloss : OrderedIndex String
  /-- The roots by gloss and coarse part of speech. -/
  byPair : OrderedIndex (String × String)

namespace WordIndex

/-- No roots. -/
def empty : WordIndex := ⟨.empty, .empty⟩

/-- Register a root. -/
def register (index : WordIndex) (e : LexiconEntry) : WordIndex where
  byGloss := index.byGloss.insert (glossKey e.english) e
  byPair := index.byPair.insert (glossKey e.english, coarsePartOfSpeech e.partOfSpeech) e

/-- The index of the roots of a lexicon. -/
def ofLexicon (lexicon : List LexiconEntry) : WordIndex :=
  (lexicon.filter LexiconEntry.isRoot).foldl register empty

/-- Does a gloss begin with a word? -/
def beginsWith (word gloss : String) : Bool := (stripStart word.toList gloss.toList).isSome

/-- The root that a word names: the one with that very gloss, or else the first whose gloss begins
with it. -/
def lookup? (index : WordIndex) (word : String) : Option String → Option LexiconEntry
  | none =>
    (index.byGloss.get? word).or (index.byGloss.find? (beginsWith word))
  | some pos =>
    (index.byPair.get? (word, pos)).or
      (index.byPair.find? fun (gloss, p) ↦ beginsWith word gloss && p == pos)

/-- The root that a word names. -/
def resolve (index : WordIndex) (word : String) (pos : Option String) :
    Except Error LexiconEntry :=
  match index.lookup? word pos with
  | some e => .ok e
  | none => .error (.unresolvedWord word pos)

end WordIndex

end Glossopoeia
