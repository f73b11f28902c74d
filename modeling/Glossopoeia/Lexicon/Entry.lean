import Glossopoeia.Json.Decode
import Glossopoeia.Text.Basic

/-!
# Lexicon entries

One sense of one word.  A word with several glosses has several entries.  Two entries have the same
value if they sound, are spelled and mean the same and their declension labels, written one after
the other, are the same; where an entry comes from plays no part.
-/

set_option autoImplicit false

namespace Glossopoeia

open Text

/-- An entry of a lexicon. -/
structure LexiconEntry where
  /-- How the word sounds. -/
  phonetic : String
  /-- How it is spelled. -/
  spelled : String
  /-- What it means. -/
  english : String
  /-- Its part of speech. -/
  partOfSpeech : String
  /-- The labels of its form. -/
  declensions : List String
  /-- Does it come from a derivation? -/
  derived : Bool
  /-- Is it a declined form? -/
  declined : Bool
  /-- Anything else about it. -/
  metadata : Json
deriving Inhabited

namespace LexiconEntry

/-- The label of a word that is not declined. -/
def rootLabel : String := "root"

/-- An entry of which nothing is known but its fields, which are trimmed. -/
def new (phonetic spelled english partOfSpeech : String) (declensions : List String) :
    LexiconEntry where
  phonetic := trimString phonetic
  spelled := trimString spelled
  english := trimString english
  partOfSpeech := trimString partOfSpeech
  declensions := declensions
  derived := false
  declined := false
  metadata := .object []

/-- The entry of a root. -/
def root (phonetic spelled english partOfSpeech : String) : LexiconEntry :=
  new phonetic spelled english partOfSpeech [rootLabel]

/-- Is the entry a root? -/
def isRoot (e : LexiconEntry) : Bool := e.declensions.contains rootLabel

/-- The labels, one after the other. -/
def declensionKey (e : LexiconEntry) : String := e.declensions.foldl (· ++ ·) ""

/-- What decides whether two entries have the same value. -/
structure Value where
  /-- How the word is spelled. -/
  spelled : String
  /-- How it sounds. -/
  phonetic : String
  /-- What it means. -/
  english : String
  /-- Its part of speech. -/
  partOfSpeech : String
  /-- Its labels, one after the other. -/
  declensionKey : String
deriving DecidableEq, Repr

/-- The value of an entry. -/
def value (e : LexiconEntry) : Value :=
  ⟨e.spelled, e.phonetic, e.english, e.partOfSpeech, e.declensionKey⟩

/-- Have the entries the same value? -/
def sameValue (a b : LexiconEntry) : Bool := a.value = b.value

/-- Are the entries alike but perhaps for their spelling? -/
def sameSound (a b : LexiconEntry) : Bool :=
  a.value = { b.value with spelled := a.spelled }

/-- The record of where the entry comes from, if it has one. -/
def source? (e : LexiconEntry) : Option Json := e.metadata.field? "source"

/-- How an entry is written in a document. -/
def toJson (e : LexiconEntry) : Json :=
  .object
    [("phonetic", .text e.phonetic), ("spelled", .text e.spelled), ("english", .text e.english),
     ("part_of_speech", .text e.partOfSpeech), ("declensions", .texts e.declensions),
     ("derived_word", .bool e.derived), ("declined_word", .bool e.declined),
     ("metadata", e.metadata)]

/-- How an entry is read from a document. -/
def record : Record LexiconEntry where
  blank := ⟨"", "", "", "", [], false, false, .object []⟩
  fields :=
    [.of "phonetic" .required Decoder.text fun s e ↦ { e with phonetic := s },
     .of "spelled" .required Decoder.text fun s e ↦ { e with spelled := s },
     .of "english" .required Decoder.text fun s e ↦ { e with english := s },
     .of "part_of_speech" .required Decoder.text fun s e ↦ { e with partOfSpeech := s },
     .of "declensions" .optional (Decoder.list Decoder.text) fun l e ↦ { e with declensions := l },
     .of "derived_word" .optional Decoder.bool fun b e ↦ { e with derived := b },
     .of "declined_word" .optional Decoder.bool fun b e ↦ { e with declined := b },
     .of "metadata" .optional Decoder.value fun v e ↦ { e with metadata := v }]

/-- The entry as a value proper. -/
def asValue (e : LexiconEntry) : Json := e.toJson.normalize

end LexiconEntry

end Glossopoeia
