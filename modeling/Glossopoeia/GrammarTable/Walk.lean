import Glossopoeia.GrammarTable.State
import Glossopoeia.Affix.Compile
import Glossopoeia.Lexicon.Entry

/-!
# Grammar tables

The grammar of a language is a list of lines.  A table opens with `TABLE TYPE`, names its part of
speech and its labels, and then fills cells, as in `N.P ~ -s`.  A table ends at the next one, at a
line with a part of speech once it has cells, and at the end of the list.  Affix tables give the
slots of their part of speech; particles and the words of word tables become entries.
-/

set_option autoImplicit false

namespace Glossopoeia

open Text

/-- What grammar tables define. -/
structure GrammarTables where
  /-- The slots of each part of speech. -/
  affixMap : AffixMap
  /-- The particles, and the words of word tables. -/
  entries : List LexiconEntry

namespace GrammarTables

/-- Nothing. -/
def empty : GrammarTables := ⟨Dictionary.empty, []⟩

/-! ## Particles -/

/-- The part of speech of particles. -/
def particlePartOfSpeech : String := "Special"

/-- The entry of a particle. -/
def particleEntry (phonetic spelled label : String) : LexiconEntry :=
  .new phonetic spelled ("<" ++ label ++ " Particle>") particlePartOfSpeech [label]

/-- The entries of a particle rule.  The two of a conditional one are told apart by what its pattern
asks for: it is about a vowel if the vowel class occurs in it. -/
def particleEntries (o : Orthography) (rule : DeclensionRule) : List LexiconEntry :=
  match rule.affix with
  | .conditional pattern _ thenAdd thenSpelled elseAdd elseSpelled =>
    let (yes, no) :=
      if contains o.phonetic.vowel pattern.toList then ("Vowel ", "Consonant ")
      else ("Consonant ", "Vowel ")
    [particleEntry thenAdd thenSpelled (yes ++ rule.declension),
     particleEntry elseAdd elseSpelled (no ++ rule.declension)]
  | .plain add spelled => [particleEntry add spelled rule.declension]
  | .empty => []
  | .substitute .. => []

/-! ## Finished tables -/

/-- Move one bucket of a finished table into the tables. -/
def addBucket (o : Orthography) (targets : List String) (tables : GrammarTables)
    (bucket : Bucket) (rules : List DeclensionRule) : GrammarTables :=
  let kind := bucket.getD .back
  if kind = .particle then
    { tables with entries := tables.entries ++ rules.flatMap (particleEntries o) }
  else
    { tables with
      affixMap := targets.foldl
        (fun map target ↦ map.alter target fun slots ↦ slots.getD [] ++ [⟨kind, rules⟩])
        tables.affixMap }

/-- The parts of speech that a table is about: a table for `n` is about every noun tag. -/
def targets (nounTags : List String) (partOfSpeech : String) : List String :=
  if partOfSpeech = "n" then nounTags else [partOfSpeech]

/-- Move a finished table into the tables.  Its part of speech is known from then on, even if all of
its rules are particles; a table without rules leaves no trace. -/
def flush (o : Orthography) (nounTags : List String) (s : TableState) (tables : GrammarTables) :
    GrammarTables :=
  if s.filed.isEmpty then tables
  else
    let targets := targets nounTags s.partOfSpeech
    let known := targets.foldl (fun map target ↦ map.alter target (·.getD [])) tables.affixMap
    s.filed.foldl (fun tables (bucket, rules) ↦ tables.addBucket o targets bucket rules)
      { tables with affixMap := known }

end GrammarTables

/-! ## Lines -/

/-- A line of a grammar, by what it says. -/
inductive GrammarLine where
  /-- A table begins. -/
  | tableType (type : String)
  /-- Labels. -/
  | labels (list : List (List Char))
  /-- A part of speech. -/
  | partOfSpeech (tag : String)
  /-- A cell: its path and its content. -/
  | cell (path content : List Char)
  /-- Anything else. -/
  | other
deriving DecidableEq, Repr

namespace GrammarLine

/-- What stands after the first equals sign, trimmed; nothing without one. -/
def valueOf (line : List Char) : List Char :=
  match cut '=' line with
  | some (_, value) => trim value
  | none => []

/-- May `c` stand in a path? -/
def isPathChar (c : Char) : Bool := isAsciiDigit c || ('A' ≤ c && c ≤ 'Z') || c == '.'

/-- Is the line a cell?  A path, a tilde with a blank on either side, and a content on one line. -/
def isCell (line : List Char) : Bool :=
  let rest := trimLeft line
  let path := rest.takeWhile isPathChar
  match rest.drop path.length with
  | b :: rest =>
    !path.isEmpty && isBlank b &&
      match trimLeft rest with
      | '~' :: c :: rest => isBlank c && !(trimLeft rest).contains '\n'
      | _ => false
  | [] => false

/-- Does the line begin with the given word? -/
def opensWith (word : String) (line : List Char) : Bool := (stripStart word.toList line).isSome

/-- What a trimmed line says. -/
def read (line : List Char) : GrammarLine :=
  if opensWith "TABLE TYPE" line then .tableType (String.ofList (valueOf line))
  else if opensWith "rows" line || opensWith "cols" line || opensWith "blocks" line then
    .labels (split '/' (valueOf line))
  else if opensWith "part-of-speech" line then .partOfSpeech (String.ofList (valueOf line))
  else if isCell line then
    match cut '~' line with
    | some (path, content) => .cell (trim path) content
    | none => .other
  else .other

end GrammarLine

/-- What has been read of a grammar: the table in hand, and the tables before it. -/
structure GrammarWalk where
  /-- The table in hand. -/
  state : TableState
  /-- The tables before it, and the words of word tables. -/
  tables : GrammarTables

namespace GrammarWalk

/-- Nothing read yet. -/
def start : GrammarWalk := ⟨.start, .empty⟩

/-- The rule that a cell of an affix table holds: its content, or what stands after the first and
before the second equals sign. -/
def ruleText (content : List Char) : List Char :=
  match cut '=' content with
  | some (_, rule) => trim (before '=' rule)
  | none => trim content

/-- Read a cell; `line` is the line it stands in. -/
def readCell (o : Orthography) (w : GrammarWalk) (line : String) (path content : List Char) :
    Except Error GrammarWalk := do
  let declension ← w.state.labels.resolve path line
  if w.state.tableType ∈ ["affix", "prefix", "postfix"] then
    let (kind, affix) ← o.compileCell (ruleText content)
    return { w with state := w.state.addRule kind ⟨declension, affix⟩ }
  else if w.state.tableType = "word" then
    match cut '=' content with
    | none => throw (.malformedWord line)
    | some (english, rest) =>
      if w.state.partOfSpeech = "" then throw (.missingPartOfSpeech line)
      else
        let phonetic := String.ofList (trim (before '=' rest))
        let entry := LexiconEntry.new phonetic (o.speller.spell phonetic) (String.ofList english)
          w.state.partOfSpeech [declension]
        return { w with tables := { w.tables with entries := w.tables.entries ++ [entry] } }
  else return w

/-- Move the table in hand to the finished ones. -/
def finishTable (o : Orthography) (nounTags : List String) (w : GrammarWalk) : GrammarWalk :=
  ⟨w.state.clear, w.tables.flush o nounTags w.state⟩

/-- Read one line. -/
def step (o : Orthography) (nounTags : List String) (w : GrammarWalk) (raw : String) :
    Except Error GrammarWalk :=
  let line := trim raw.toList
  match GrammarLine.read line with
  | .tableType type =>
    let w := w.finishTable o nounTags
    .ok { w with state := { w.state with tableType := type, partOfSpeech := "" } }
  | .labels list =>
    let labels := list.foldl Labels.add w.state.labels
    .ok { w with state := { w.state with labels := labels } }
  | .partOfSpeech tag =>
    let w := if w.state.filed.isEmpty then w else w.finishTable o nounTags
    let labels := if tag = "pron" then w.state.labels.addPersons else w.state.labels
    .ok { w with state := { w.state with partOfSpeech := tag, labels := labels } }
  | .cell path content => w.readCell o (String.ofList line) path content
  | .other => .ok w

/-- Read lines. -/
def walk (o : Orthography) (nounTags : List String) (w : GrammarWalk) (lines : List String) :
    Except Error GrammarWalk :=
  lines.foldlM (step o nounTags) w

end GrammarWalk

/-- The noun tags among the parts of speech: those that begin with an `n`, numerals apart. -/
def nounTags (partsOfSpeech : StringSet) : List String :=
  partsOfSpeech.toList.filter fun tag ↦ tag.toList.head? == some 'n' && tag != "num"

/-- Compile the grammar of a language whose words have the given parts of speech. -/
def GrammarTables.compile (o : Orthography) (partsOfSpeech : StringSet) (lines : List String) :
    Except Error GrammarTables := do
  let tags := nounTags partsOfSpeech
  let w ← GrammarWalk.start.walk o tags lines
  return w.tables.flush o tags w.state

end Glossopoeia
