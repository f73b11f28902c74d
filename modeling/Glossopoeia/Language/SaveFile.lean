import Glossopoeia.Json.Parser
import Glossopoeia.Json.Decode
import Glossopoeia.Phonology.Inventory
import Glossopoeia.Phonology.SoundClass
import Glossopoeia.Text.Basic
import Glossopoeia.Error

/-!
# Save files

A language is designed in an editor, and the editor's save file is what a document is built from.
Of its fields only those are read that matter for the lexicon, and each may be missing.
-/

set_option autoImplicit false

namespace Glossopoeia

open Text Phonology

/-- A stretch of the grammar's rich text. -/
structure GrammarOp where
  /-- What is inserted. -/
  insert : Option Json
  /-- How it looks, if it is there only for that. -/
  attributes : Option Json

namespace GrammarOp

/-- How a stretch is read. -/
def record : Record GrammarOp where
  blank := ⟨none, none⟩
  fields :=
    [.of "insert" .keyed (Decoder.optional Decoder.value) fun v op ↦ { op with insert := v },
     .of "attributes" .keyed (Decoder.optional Decoder.value) fun v op ↦
       { op with attributes := v }]

/-- The text of a stretch that is not there only for its looks. -/
def text? (op : GrammarOp) : Option String :=
  match op.attributes with
  | some _ => none
  | none => op.insert.bind Json.text?

end GrammarOp

/-- The fields of a save file. -/
structure SaveFile where
  /-- The word list. -/
  words : String
  /-- The list of derivations. -/
  derivedWords : String
  /-- The spelling rules. -/
  spellingRules : String
  /-- The grammar. -/
  grammar : List GrammarOp
  /-- The alphabet. -/
  alphabet : String
  /-- The derivational affixes. -/
  derivationalAffixes : String
  /-- The genders of nouns. -/
  nounGenders : String
  /-- The name in English. -/
  englishName : String
  /-- The name in the language's own sounds. -/
  phoneticName : String
  /-- The consonants. -/
  consonants : String
  /-- The vowels. -/
  vowels : String
  /-- The consonants that begin words. -/
  initialConsonants : String
  /-- The consonants inside of words. -/
  medialConsonants : String
  /-- The consonants that end words. -/
  finalConsonants : String
  /-- The vowels of basic words. -/
  basicVowels : String
  /-- The vowels of the further syllables of basic words. -/
  furtherVowels : String

namespace SaveFile

/-- A save file without any field. -/
def blank : SaveFile := ⟨"", "", "", [], "", "", "", "", "", "", "", "", "", "", "", ""⟩

/-- How the text of a field is read: it stands under the key `value`. -/
def textRecord : Record String where
  blank := ""
  fields := [.of "value" .optional Decoder.text fun v _ ↦ v]

/-- How the grammar is read. -/
def grammarRecord : Record (List GrammarOp) where
  blank := []
  fields := [.of "ops" .optional (Decoder.list GrammarOp.record.decode) fun v _ ↦ v]

/-- A field that holds a text. -/
def textField (key : String) (set : String → SaveFile → SaveFile) : Field SaveFile :=
  .of key .optional textRecord.decode set

/-- How a save file is read. -/
def record : Record SaveFile where
  blank := blank
  fields :=
    [textField "words" fun v s ↦ { s with words := v },
     textField "derivedWords" fun v s ↦ { s with derivedWords := v },
     textField "spellingRules" fun v s ↦ { s with spellingRules := v },
     .of "grammarEditor" .optional grammarRecord.decode fun v s ↦ { s with grammar := v },
     textField "customAlphabetOrder" fun v s ↦ { s with alphabet := v },
     textField "derivationalAffixes" fun v s ↦ { s with derivationalAffixes := v },
     textField "nounGenders" fun v s ↦ { s with nounGenders := v },
     textField "anglicizedName" fun v s ↦ { s with englishName := v },
     textField "ipaLangName" fun v s ↦ { s with phoneticName := v },
     textField "customConsonants" fun v s ↦ { s with consonants := v },
     textField "customVowels" fun v s ↦ { s with vowels := v },
     textField "wordInitialConsonants" fun v s ↦ { s with initialConsonants := v },
     textField "midWordConsonants" fun v s ↦ { s with medialConsonants := v },
     textField "wordFinalConsonants" fun v s ↦ { s with finalConsonants := v },
     textField "bwsVowels" fun v s ↦ { s with basicVowels := v },
     textField "bws2ndVowels" fun v s ↦ { s with furtherVowels := v }]

/-- The save file that a value is. -/
def ofJson (v : Json) : Except Error SaveFile :=
  match record.decode v with
  | .ok s => .ok s
  | .error e => .error (.undecodable e)

/-- The value that a save file's text spells. -/
def readJson (text : String) : Except Error Json :=
  match Json.parseValue text with
  | some v => .ok v
  | none => .error (.undecodable .mismatch)

/-- The lines of the grammar, trimmed, blank ones left out. -/
def instructions (s : SaveFile) : List String :=
  (s.grammar.filterMap GrammarOp.text?).flatMap fun text ↦
    ((lines text.toList).map trim).filterMap fun line ↦
      if line.isEmpty then none else some (String.ofList line)

/-- Every phoneme that is listed anywhere, in order. -/
def phonemes (s : SaveFile) : List String :=
  (StringSet.ofList
    ([s.initialConsonants, s.medialConsonants, s.finalConsonants, s.basicVowels, s.furtherVowels,
      s.consonants, s.vowels].flatMap wordsOf)).toList

/-- The class of the listed vowels. -/
def soundClass (s : SaveFile) : SoundClass :=
  .ofSymbols (wordsOf s.vowels ++ wordsOf s.basicVowels)

/-- The genders of nouns, one a line, blank lines left out. -/
def genders (s : SaveFile) : List String :=
  ((lines s.nounGenders.toList).map trim).filterMap fun line ↦
    if line.isEmpty then none else some (String.ofList line)

end SaveFile

end Glossopoeia
