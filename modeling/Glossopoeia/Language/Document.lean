import Glossopoeia.Affix.Document
import Glossopoeia.SoundMap.Basic
import Glossopoeia.Lexicon.Entry
import Glossopoeia.Json.Parser
import Glossopoeia.Json.Printer
import Glossopoeia.Error

/-!
# Language documents

Everything that is known about a language.  A document is kept as a JSON text: `Language.write`
makes the text and `Language.read` reads one, which may leave out whatever has a default.
-/

set_option autoImplicit false

namespace Glossopoeia

/-- A language. -/
structure Language where
  /-- The version of the document's format. -/
  version : Float
  /-- The name of the language in English. -/
  englishName : String
  /-- The phonetic alphabet in use. -/
  phoneticCharacters : String
  /-- The name of the language in its own sounds. -/
  nativeNamePhonetic : String
  /-- The name of the language in its own spelling. -/
  nativeNameEnglish : String
  /-- The voices to speak it with, by speech engine. -/
  preferredVoices : Option (Dictionary String)
  /-- The language whose sounds it is spoken with. -/
  preferredLanguage : Option String
  /-- Does the lexicon hold derived words? -/
  derived : Bool
  /-- Does the lexicon hold declined forms? -/
  declined : Bool
  /-- The genders of nouns. -/
  nounGenders : List String
  /-- The parts of speech. -/
  partsOfSpeech : List String
  /-- All phonemes. -/
  phonemeInventory : List String
  /-- The phonemes by kind. -/
  phoneticInventory : Dictionary (List String)
  /-- The order of subject, verb and object. -/
  wordOrder : Option String
  /-- Where adjectives stand. -/
  adjectivePosition : Option String
  /-- Where adpositions stand. -/
  adpositionPosition : Option String
  /-- How it is spelled. -/
  soundMap : SoundMap
  /-- Its alphabet. -/
  lexicalOrder : List String
  /-- How its words are declined. -/
  affixMap : AffixMap
  /-- How its words are derived. -/
  derivationalAffixes : DerivationalAffixMap
  /-- Its words. -/
  lexicon : List LexiconEntry
  /-- The derivations of its words. -/
  derivedWords : List String
  /-- Anything else about it. -/
  metadata : Json

namespace Language

/-- The version that documents are written in. -/
def currentVersion : Float := 1.0

/-- A language of which nothing is known. -/
def blank : Language where
  version := currentVersion
  englishName := ""
  phoneticCharacters := "ipa"
  nativeNamePhonetic := ""
  nativeNameEnglish := ""
  preferredVoices := none
  preferredLanguage := none
  derived := false
  declined := false
  nounGenders := []
  partsOfSpeech := []
  phonemeInventory := []
  phoneticInventory := Dictionary.empty
  wordOrder := none
  adjectivePosition := none
  adpositionPosition := none
  soundMap := []
  lexicalOrder := []
  affixMap := Dictionary.empty
  derivationalAffixes := Dictionary.empty
  lexicon := []
  derivedWords := []
  metadata := .object []

instance : Inhabited Language := ⟨blank⟩

/-! ## Writing -/

/-- A field that is left out if it has no value. -/
def optionalField {α : Type} (key : String) (encode : α → Json) (value : Option α) :
    List (String × Json) :=
  match value with
  | some v => [(key, encode v)]
  | none => []

/-- A dictionary of strings as a document has it. -/
def textsJson (d : Dictionary String) : Json := .object (d.map Json.text).entries

/-- A dictionary of lists of strings as a document has it. -/
def listsJson (d : Dictionary (List String)) : Json := .object (d.map Json.texts).entries

/-- A language as a document has it. -/
def toJson (l : Language) : Json :=
  .object <|
    [("version", .float l.version),
     ("english_name", .text l.englishName),
     ("phonetic_characters", .text l.phoneticCharacters),
     ("native_name_phonetic", .text l.nativeNamePhonetic),
     ("native_name_english", .text l.nativeNameEnglish)] ++
    optionalField "preferred_voices" textsJson l.preferredVoices ++
    optionalField "preferred_language" .text l.preferredLanguage ++
    [("derived", .bool l.derived),
     ("declined", .bool l.declined),
     ("noun_gender_list", .texts l.nounGenders),
     ("part_of_speech_list", .texts l.partsOfSpeech),
     ("phoneme_inventory", .texts l.phonemeInventory),
     ("phonetic_inventory", listsJson l.phoneticInventory)] ++
    optionalField "word_order" .text l.wordOrder ++
    optionalField "adjective_position" .text l.adjectivePosition ++
    optionalField "pre_post_position" .text l.adpositionPosition ++
    [("sound_map_list", .list (l.soundMap.map SoundRule.toJson)),
     ("lexical_order_list", .texts l.lexicalOrder),
     ("affix_map", l.affixMap.toJson),
     ("derivational_affix_map", l.derivationalAffixes.toJson),
     ("lexicon", .list (l.lexicon.map LexiconEntry.toJson)),
     ("derived_word_list", .texts l.derivedWords),
     ("metadata", l.metadata)]

/-- The text of a document. -/
def write (l : Language) : String := String.ofList (Json.pretty 0 l.toJson ++ ['\n'])

/-! ## Reading -/

/-- A list of strings. -/
def textList : Decoder (List String) := Decoder.list Decoder.text

/-- How a language is read from a document. -/
def record : Record Language where
  blank := blank
  fields :=
    [.of "version" .required Decoder.float fun v l ↦ { l with version := v },
     .of "english_name" .required Decoder.text fun v l ↦ { l with englishName := v },
     .of "phonetic_characters" .required Decoder.text fun v l ↦
       { l with phoneticCharacters := v },
     .of "native_name_phonetic" .required Decoder.text fun v l ↦
       { l with nativeNamePhonetic := v },
     .of "native_name_english" .required Decoder.text fun v l ↦ { l with nativeNameEnglish := v },
     .of "preferred_voices" .optional (Decoder.optional (Decoder.dictionary Decoder.text)) fun v l ↦
       { l with preferredVoices := v },
     .of "preferred_language" .optional (Decoder.optional Decoder.text) fun v l ↦
       { l with preferredLanguage := v },
     .of "derived" .optional Decoder.bool fun v l ↦ { l with derived := v },
     .of "declined" .optional Decoder.bool fun v l ↦ { l with declined := v },
     .of "noun_gender_list" .optional textList fun v l ↦ { l with nounGenders := v },
     .of "part_of_speech_list" .optional textList fun v l ↦ { l with partsOfSpeech := v },
     .of "phoneme_inventory" .optional textList fun v l ↦ { l with phonemeInventory := v },
     .of "phonetic_inventory" .optional (Decoder.dictionary textList) fun v l ↦
       { l with phoneticInventory := v },
     .of "word_order" .optional (Decoder.optional Decoder.text) fun v l ↦
       { l with wordOrder := v },
     .of "adjective_position" .optional (Decoder.optional Decoder.text) fun v l ↦
       { l with adjectivePosition := v },
     .of "pre_post_position" .optional (Decoder.optional Decoder.text) fun v l ↦
       { l with adpositionPosition := v },
     .of "sound_map_list" .required (Decoder.list SoundRule.record.decode) fun v l ↦
       { l with soundMap := v },
     .of "lexical_order_list" .required textList fun v l ↦ { l with lexicalOrder := v },
     .of "affix_map" .required AffixMap.decode fun v l ↦ { l with affixMap := v },
     .of "derivational_affix_map" .required DerivationalAffixMap.decode fun v l ↦
       { l with derivationalAffixes := v },
     .of "lexicon" .required (Decoder.list LexiconEntry.record.decode) fun v l ↦
       { l with lexicon := v },
     .of "derived_word_list" .optional textList fun v l ↦ { l with derivedWords := v },
     .of "metadata" .optional Decoder.value fun v l ↦ { l with metadata := v }]

/-- Read the text of a document. -/
def read (text : String) : Except Error Language :=
  match Json.parse text.toList with
  | none => .error (.undecodable .mismatch)
  | some v =>
    match record.decode v with
    | .ok l => .ok l
    | .error e => .error (.undecodable e)

end Language

end Glossopoeia
