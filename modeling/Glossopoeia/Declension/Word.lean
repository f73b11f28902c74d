import Glossopoeia.Lexicon.WordNotation
import Glossopoeia.SoundMap.Speller
import Glossopoeia.Json.Printer

/-!
# Words to be declined

A word can be given as a line of the word list, as a lexicon entry, or by the three things that
declension needs to know of it.
-/

set_option autoImplicit false

namespace Glossopoeia

/-- A word in one of the shapes that can be declined. -/
inductive WordInput where
  /-- A line of a word list. -/
  | line (text : String)
  /-- What declension needs to know. -/
  | fields (phonetic partOfSpeech english : String)
  /-- A lexicon entry. -/
  | entry (e : LexiconEntry)

/-- A word as declension sees it. -/
structure RootWord where
  /-- How it sounds. -/
  phonetic : String
  /-- Its part of speech. -/
  partOfSpeech : String
  /-- What it means. -/
  glosses : List String
  /-- Does it come from a derivation? -/
  derived : Bool
  /-- The record of the word that its declined forms carry. -/
  source : Json

namespace WordInput

/-- The word that a document's value gives: a string is a line, and an object or an array is an
entry if it can be read as one. -/
def ofJson (v : Json) : Except Error WordInput :=
  match v with
  | .text s => .ok (line s)
  | v =>
    match LexiconEntry.record.decode v with
    | .ok e => .ok (entry e)
    | .error _ =>
      let part (key : String) : Option String := (v.field? key).bind Json.text?
      match part "phonetic", part "part_of_speech", part "english" with
      | some phonetic, some pos, some english => .ok (fields phonetic pos english)
      | _, _, _ => .error (.unsupportedWord v.compress)

/-- The record of a word that is no entry. -/
def sourceOf (speller : Speller) (phonetic english partOfSpeech : String) : Json :=
  (LexiconEntry.new phonetic (speller.spell phonetic) english partOfSpeech []).asValue

/-- The word as declension sees it.  An entry says itself whether it is derived; of the other shapes
`derived` says it. -/
def toRoot (speller : Speller) (derived : Bool) : WordInput → Except Error RootWord
  | line text => do
    let word ← WordNotation.read text
    return {
      phonetic := word.phonetic
      partOfSpeech := word.partOfSpeech
      glosses := word.glosses
      derived := derived
      source := sourceOf speller word.phonetic (word.glosses.headD "") word.partOfSpeech }
  | fields phonetic pos english =>
    .ok {
      phonetic := phonetic
      partOfSpeech := pos
      glosses := [english]
      derived := derived
      source := sourceOf speller phonetic english pos }
  | entry e =>
    .ok {
      phonetic := e.phonetic
      partOfSpeech := e.partOfSpeech
      glosses := [e.english]
      derived := e.derived
      source := e.asValue }

end WordInput

end Glossopoeia
