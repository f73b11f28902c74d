import Glossopoeia.Language.Document
import Glossopoeia.Language.SaveFile
import Glossopoeia.SoundMap.Compile
import Glossopoeia.GrammarTable.Walk
import Glossopoeia.Lexicon.WordList
import Glossopoeia.Lexicon.Dedup
import Glossopoeia.Derivation.Deriver

/-!
# Building a language

A save file is turned into a language in steps: first everything that words are made by, which is
`Blueprint`, then the lexicon, then the document around it.
-/

set_option autoImplicit false

namespace Glossopoeia

open Text Phonology

/-- What a build may be told. -/
structure BuildOptions where
  /-- Are derived words added? -/
  derive : Bool
  /-- Are declined forms added? -/
  decline : Bool
  /-- The voice of one speech engine. -/
  voice : Option String
  /-- The language of the other; it counts only beside a voice. -/
  espeakLanguage : Option String
  /-- The language whose sounds are used when speaking. -/
  preferredLanguage : Option String
  /-- The alphabet of a language without one of its own. -/
  defaultAlphabet : String
deriving DecidableEq, Repr

namespace BuildOptions

/-- What holds if nothing is said. -/
def default : BuildOptions := ⟨true, false, none, none, none, LexicalOrder.defaultAlphabet⟩

/-- The voices to speak with. -/
def voices (o : BuildOptions) : Option (Dictionary String) :=
  o.voice.map fun voice ↦
    let polly := Dictionary.empty.insert "Polly" voice
    match o.espeakLanguage with
    | some language => polly.insert "espeak-ng" language
    | none => polly

end BuildOptions

/-- Everything that the words of a language are made by. -/
structure Blueprint where
  /-- The alphabet. -/
  order : LexicalOrder
  /-- The lines of the word list. -/
  wordLines : List String
  /-- The derivations. -/
  derivedLines : List String
  /-- The parts of speech of the word list. -/
  partsOfSpeech : StringSet
  /-- The spelling. -/
  spelling : CompiledSpelling
  /-- The spelling, compiled. -/
  speller : Speller
  /-- What the grammar tables define. -/
  tables : GrammarTables
  /-- The derivational affixes. -/
  derivationalAffixes : DerivationalAffixMap

namespace Blueprint

/-- What a save file says about making words. -/
def ofSaveFile (s : SaveFile) (options : BuildOptions) : Except Error Blueprint := do
  let alphabet := trimString s.alphabet
  let order := LexicalOrder.ofAlphabet (if alphabet = "" then options.defaultAlphabet else alphabet)
  let wordLines := WordList.listLines s.words
  let derivedLines := WordList.listLines s.derivedWords
  let partsOfSpeech ← WordList.partsOfSpeech wordLines
  let spelling ← compileSoundMap (linesOf s.spellingRules) s.soundClass
  let speller ← Speller.ofSoundMap spelling.soundMap
  let orthography : Orthography := ⟨spelling.phonetic, spelling.spelled, speller⟩
  let tables ← GrammarTables.compile orthography partsOfSpeech s.instructions
  let affixes ← orthography.compileDerivationals (linesOf s.derivationalAffixes)
  return ⟨order, wordLines, derivedLines, partsOfSpeech, spelling, speller, tables, affixes⟩

/-- The words that are neither derived nor declined: those of the tables, then those of the list. -/
def words (b : Blueprint) : Except Error (List LexiconEntry) := do
  let listed ← WordList.entries b.wordLines b.speller
  return b.tables.entries ++ listed

/-- The words with the derived ones, if they are asked for. -/
def withDerived (b : Blueprint) (options : BuildOptions) (words : List LexiconEntry) :
    Except Error (List LexiconEntry) :=
  if options.derive then do
    let derived ← deriveWords b.derivedLines b.derivationalAffixes words b.tables.affixMap b.speller
      options.decline
    return words ++ derived
  else .ok words

/-- The declined forms of all entries that are none themselves. -/
def declinedForms (decliner : Decliner) (entries : List LexiconEntry) : List LexiconEntry :=
  (entries.filter fun e ↦ !e.declined).flatMap decliner.declineEntry

/-- The words with their declined forms, if they are asked for. -/
def withDeclined (b : Blueprint) (options : BuildOptions) (words : List LexiconEntry) :
    Except Error (List LexiconEntry) :=
  if options.decline then do
    let decliner ← Decliner.ofAffixMap b.tables.affixMap b.speller
    return words ++ declinedForms decliner words
  else .ok words

/-- The lexicon: all words, each once and in order. -/
def lexicon (b : Blueprint) (options : BuildOptions) : Except Error (List LexiconEntry) := do
  let words ← b.words
  let words ← b.withDerived options words
  let words ← b.withDeclined options words
  return b.order.sortEntries (dedupLexicon words)

end Blueprint

/-- The document of a language with the given lexicon; `save` is the save file as it was read. -/
def Blueprint.document (b : Blueprint) (options : BuildOptions) (s : SaveFile) (save : Json)
    (lexicon : List LexiconEntry) : Language :=
  let nativeName := trimString s.phoneticName
  { Language.blank with
    englishName := trimString s.englishName
    nativeNamePhonetic := nativeName
    nativeNameEnglish := onString capitalize (b.speller.spell nativeName)
    preferredVoices := options.voices
    preferredLanguage := options.preferredLanguage
    derived := options.derive
    declined := options.decline
    nounGenders := s.genders
    partsOfSpeech := b.partsOfSpeech.toList
    phonemeInventory := s.phonemes
    phoneticInventory := (inventory (wordsOf s.consonants) (wordsOf s.vowels)).toDictionary
    soundMap := b.spelling.soundMap
    lexicalOrder := b.order.letters
    affixMap := b.tables.affixMap
    derivationalAffixes := b.derivationalAffixes
    lexicon := lexicon
    derivedWords := b.derivedLines
    metadata := .object [("source", .list [.object [("vulgarlang", save)]])] }

/-- Build a language from a save file's value. -/
def buildLanguage (save : Json) (options : BuildOptions) : Except Error Language := do
  let s ← SaveFile.ofJson save
  let b ← Blueprint.ofSaveFile s options
  let lexicon ← b.lexicon options
  return b.document options s save lexicon

end Glossopoeia
