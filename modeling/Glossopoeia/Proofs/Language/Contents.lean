import Glossopoeia.Proofs.Derivation.Lines
import Glossopoeia.Proofs.Derivation.Spelled
import Glossopoeia.Proofs.GrammarTable.Items
import Glossopoeia.Proofs.Language.Words
import Glossopoeia.Proofs.Text.Blank

/-!
# What a lexicon holds

A save file names words in three places: in the lines of its word list, in the cells of its word
tables, and in the lines of its derivations.  In the lexicon that is built from it each of these
words stands exactly once, and if nothing is declined there are no others but the particles of the
grammar (`buildLanguage_hasContents`).

The words are followed from where they are written.  A list line is read as a word with glosses
(`WordList.mem_entries_iff`), a cell is an item of the grammar (`GrammarTables.entries_compile`),
and a derivation makes its roots from what the lines before it have made (`Deriver.exists_forms`,
`Deriver.exists_forms_of_mem`).  A build collects these words and roots, and where it declines,
forms of them (`Blueprint.exists_gathers_of_collected`).  What is collected is tidied last, which
leaves one entry of each value and invents none (`onceIn_tidied`).
-/

set_option autoImplicit false

namespace Glossopoeia

open LexiconEntry Outcome Text

/-! ## One entry of each value -/

/-- Is there exactly one entry in the lexicon that has the value of `e`? -/
def LexiconEntry.OnceIn (e : LexiconEntry) (lexicon : List LexiconEntry) : Prop :=
  lexicon.countP e.sameValue = 1

/-- Whatever is collected is there once when all is tidied. -/
theorem onceIn_tidied (order : LexicalOrder) {entries : List LexiconEntry} {e : LexiconEntry}
    (h : e.value ∈ entries.map value) :
    e.OnceIn (order.sortEntries (dedupLexicon entries)) := by
  have hcount : ∀ lexicon : List LexiconEntry,
      lexicon.countP e.sameValue = (lexicon.map value).count e.value := by
    intro lexicon
    rw [List.count, List.countP_map]
    refine List.countP_congr fun d _ ↦ ?_
    rw [sameValue_iff, Function.comp_apply, beq_iff_eq, eq_comm]
  rw [OnceIn, hcount]
  exact List.count_eq_one_of_mem (nodup_tidied order entries) (mem_values_tidied order |>.2 h)

/-! ## The word list -/

namespace WordList

/-- The root of a gloss of a word. -/
def rootOf (speller : Speller) (word : WordNotation) (gloss : String) : LexiconEntry :=
  .root word.phonetic (speller.spell word.phonetic) gloss word.partOfSpeech

variable {lines : List String} {speller : Speller} {listed : List LexiconEntry}

/-- All lines are read as words. -/
theorem exists_read (h : entries lines speller = .ok listed) :
    ∀ line ∈ lines, ∃ word, WordNotation.read line = .ok word := by
  rw [entries, bind_eq_ok] at h
  obtain ⟨words, hwords, _⟩ := h
  intro line hline
  obtain ⟨word, _, hword⟩ := exists_mem_of_mapM hwords line hline
  exact ⟨word, hword⟩

/-- The entries of a word list are the roots of its glosses. -/
theorem mem_entries_iff (h : entries lines speller = .ok listed) {e : LexiconEntry} :
    e ∈ listed ↔ ∃ line ∈ lines, ∃ word, WordNotation.read line = .ok word ∧
      ∃ gloss ∈ word.glosses, e = rootOf speller word gloss := by
  rw [entries, bind_eq_ok] at h
  obtain ⟨words, hwords, h⟩ := h
  rw [← pure_eq_ok.1 h, List.mem_flatMap]
  constructor
  · rintro ⟨word, hword, he⟩
    obtain ⟨gloss, hgloss, rfl⟩ := List.mem_map.1 he
    obtain ⟨line, hline, hread⟩ := exists_of_mem_mapM hwords word hword
    exact ⟨line, hline, word, hread, gloss, hgloss, rfl⟩
  · rintro ⟨line, hline, word, hread, gloss, hgloss, rfl⟩
    obtain ⟨word', hword', hread'⟩ := exists_mem_of_mapM hwords line hline
    cases hread.symm.trans hread'
    exact ⟨word, hword', List.mem_map_of_mem hgloss⟩

/-- No line of a list is blank. -/
theorem trim_ne_nil_of_mem_listLines {text raw : String} (h : raw ∈ listLines text) :
    trim raw.toList ≠ [] := by
  obtain ⟨line, _, hline⟩ := List.mem_filterMap.1 h
  split at hline
  · cases hline
  · next hblank =>
    cases hline
    rw [String.toList_ofList]
    exact fun hnil ↦ hblank (trim_eq_nil_iff.1 hnil)

end WordList

/-! ## The whole lexicon -/

namespace Blueprint

/-- How the cells of the grammar are read. -/
def orthography (b : Blueprint) : Orthography :=
  ⟨b.spelling.phonetic, b.spelling.spelled, b.speller⟩

/-- The items of the grammar. -/
def grammarItems (b : Blueprint) (s : SaveFile) : List GrammarItem :=
  GrammarTables.items b.orthography b.partsOfSpeech s.instructions

/-- Does the walk over the grammar come to the line `raw` with `w` in hand? -/
def ReadsGrammar (b : Blueprint) (s : SaveFile) (w : GrammarWalk) (raw : String) : Prop :=
  w.Reads b.orthography (nounTags b.partsOfSpeech) s.instructions raw

/-- Does the lexicon hold each word that the save file names once, and nothing else? -/
structure HasContents (b : Blueprint) (s : SaveFile) (o : BuildOptions)
    (lexicon : List LexiconEntry) : Prop where
  /-- Each line of the word list is a word, and each gloss of it is there once. -/
  listed : ∀ line ∈ WordList.listLines s.words, ∃ word, WordNotation.read line = .ok word ∧
    ∀ gloss ∈ word.glosses, (WordList.rootOf b.speller word gloss).OnceIn lexicon
  /-- Each cell of a word table is filled, and its word is there once. -/
  cells : ∀ w line path content, b.ReadsGrammar s w line →
    GrammarLine.read (trim line.toList) = .cell path content → w.state.tableType = "word" →
      ∃ cell, w.wordCell? line = some cell ∧ (cell.entry b.orthography).OnceIn lexicon
  /-- With derivation, each line of the derivations is a rule whose parts are found among the words
  and the roots of the lines before it, and each gloss of it is there once. -/
  derived : o.derive = true → ∃ d words,
    Deriver.ofAffixes b.derivationalAffixes b.speller = .ok d ∧ b.words = .ok words ∧
      ∀ before raw after, WordList.listLines s.derivedWords = before ++ raw :: after →
        ∃ rule form, d.Forms words before raw rule form ∧
          ∀ gloss ∈ rule.glosses, (rule.rootOf b.speller form gloss).OnceIn lexicon
  /-- Without declension, whatever is there is the root of a gloss of the word list, the word of a
  cell, a particle, or with derivation the root of a gloss of a derivation. -/
  rest : o.decline = false → ∀ e ∈ lexicon,
    (∃ line ∈ WordList.listLines s.words, ∃ word, WordNotation.read line = .ok word ∧
      ∃ gloss ∈ word.glosses, e = WordList.rootOf b.speller word gloss) ∨
    (∃ w line cell, b.ReadsGrammar s w line ∧ w.wordCell? line = some cell ∧
      e = cell.entry b.orthography) ∨
    (∃ table, .table table ∈ b.grammarItems s ∧ e ∈ table.particles b.orthography) ∨
    (o.derive = true ∧ ∃ d words,
      Deriver.ofAffixes b.derivationalAffixes b.speller = .ok d ∧ b.words = .ok words ∧
        ∃ before raw after rule form, WordList.listLines s.derivedWords = before ++ raw :: after ∧
          d.Forms words before raw rule form ∧
          ∃ gloss ∈ rule.glosses, e.sameValue (rule.rootOf b.speller form gloss) = true)

variable {save : Json} {o : BuildOptions} {s : SaveFile} {b : Blueprint}
  {words entries : List LexiconEntry}

/-- The lists of the save file, as a blueprint has them. -/
theorem lists_of_ofSave (h : ofSave save o = .ok (s, b)) :
    WordList.partsOfSpeech (WordList.listLines s.words) = .ok b.partsOfSpeech ∧
      b.derivedLines = WordList.listLines s.derivedWords := by
  obtain ⟨-, hb⟩ := ofSave_eq_ok.1 h
  rw [ofSaveFile] at hb
  obtain ⟨_, hpartsOfSpeech, hb⟩ := bind_eq_ok.1 hb
  obtain ⟨_, -, hb⟩ := bind_eq_ok.1 hb
  obtain ⟨_, -, hb⟩ := bind_eq_ok.1 hb
  obtain ⟨_, -, hb⟩ := bind_eq_ok.1 hb
  obtain ⟨_, -, hb⟩ := bind_eq_ok.1 hb
  cases pure_eq_ok.1 hb
  exact ⟨hpartsOfSpeech, rfl⟩

/-- The words are those of the tables and those of the list. -/
theorem words_eq_ok : b.words = .ok words ↔
    ∃ listed, WordList.entries b.wordLines b.speller = .ok listed ∧
      words = b.tables.entries ++ listed := by
  rw [Blueprint.words, bind_eq_ok]
  exact exists_congr fun _ ↦ and_congr_right fun _ ↦ pure_eq_ok.trans eq_comm

/-- Is the entry a form that a decliner of the tables makes? -/
def IsForm (b : Blueprint) (f : LexiconEntry) : Prop :=
  ∃ decliner e, Decliner.ofAffixMap b.tables.affixMap b.speller = .ok decliner ∧
    f ∈ decliner.declineEntry e

/-- Are `entries` words with the roots that are derived from them, and perhaps with forms? -/
structure Gathers (b : Blueprint) (o : BuildOptions) (words roots entries : List LexiconEntry) :
    Prop where
  /-- With derivation, the roots are all that the derivations make. -/
  derived : o.derive = true → b.rootsFrom words = .ok roots
  /-- Without it there are none. -/
  underived : o.derive = false → roots = []
  /-- No word and no root is left out. -/
  subset : words ++ roots ⊆ entries
  /-- Without declension there is nothing else. -/
  undeclined : o.decline = false → entries = words ++ roots
  /-- With it there are forms, and nothing else. -/
  mem_or_isForm : ∀ e ∈ entries, e ∈ words ++ roots ∨ b.IsForm e

/-- With derivation, the derived roots are added, perhaps with their forms between them. -/
theorem exists_gathers_of_withDerived {all : List LexiconEntry}
    (h : b.withDerived o words = .ok all) : ∃ roots, b.Gathers o words roots all := by
  cases hderive : o.derive with
  | false =>
    rw [withDerived_of_false hderive] at h
    cases h
    have hnil : words ++ [] = words := List.append_nil words
    refine ⟨[], ?_, fun _ ↦ rfl, hnil.symm ▸ List.Subset.refl _, fun _ ↦ hnil.symm, ?_⟩
    · exact fun htrue ↦ Bool.noConfusion (hderive.symm.trans htrue)
    · exact fun e he ↦ .inl (hnil.symm ▸ he)
  | true =>
    have hnone : ∀ roots : List LexiconEntry, o.derive = false → roots = [] :=
      fun _ hfalse ↦ Bool.noConfusion (hderive.symm.trans hfalse)
    obtain ⟨derived, hderived, rfl⟩ := (withDerived_eq_ok hderive).1 h
    cases hdecline : o.decline with
    | false =>
      rw [hdecline] at hderived
      exact ⟨derived, fun _ ↦ hderived, hnone _, List.Subset.refl _, fun _ ↦ rfl,
        fun _ he ↦ .inl he⟩
    | true =>
      rw [hdecline] at hderived
      obtain ⟨decliner, roots, hdecliner, hroots, rfl⟩ := deriveWords_true_eq_ok.1 hderived
      refine ⟨roots, fun _ ↦ hroots, hnone _, fun e he ↦ ?_, fun hfalse ↦ ?_, fun e he ↦ ?_⟩
      · exact List.mem_append.2 ((List.mem_append.1 he).imp id fun he ↦
          mem_withFamilies.2 ⟨e, he, .inl rfl⟩)
      · exact Bool.noConfusion (hdecline.symm.trans hfalse)
      · rcases List.mem_append.1 he with he | he
        · exact .inl (List.mem_append_left _ he)
        · obtain ⟨r, hr, rfl | hf⟩ := mem_withFamilies.1 he
          · exact .inl (List.mem_append_right _ hr)
          · exact .inr ⟨decliner, r, hdecliner, hf⟩

/-- What is collected are the words with the derived roots, and perhaps with forms. -/
theorem exists_gathers_of_collected (h : b.collected o = .ok entries) :
    ∃ words roots, b.words = .ok words ∧ b.Gathers o words roots entries := by
  obtain ⟨words, all, hwords, hall, h⟩ := collected_eq_ok.1 h
  obtain ⟨roots, hroots⟩ := exists_gathers_of_withDerived hall
  refine ⟨words, roots, hwords, ?_⟩
  cases hdecline : o.decline with
  | false =>
    rw [withDeclined_of_false hdecline] at h
    cases h
    exact hroots
  | true =>
    obtain ⟨decliner, hdecliner, rfl⟩ := (withDeclined_eq_ok hdecline).1 h
    refine { hroots with
      subset := List.subset_append_of_subset_left _ hroots.subset
      undeclined := fun hfalse ↦ Bool.noConfusion (hdecline.symm.trans hfalse)
      mem_or_isForm := fun e he ↦ ?_ }
    rcases List.mem_append.1 he with he | he
    · exact hroots.mem_or_isForm e he
    · obtain ⟨r, _, hf⟩ := List.mem_flatMap.1 he
      exact .inr ⟨decliner, r, hdecliner, hf⟩

/-- A cell of a word table is read as a word of the grammar. -/
theorem exists_wordCell?_of_readsGrammar (hb : ofSave save o = .ok (s, b)) {w : GrammarWalk}
    {line : String} {path content : List Char} (hreads : b.ReadsGrammar s w line)
    (hline : GrammarLine.read (trim line.toList) = .cell path content)
    (htype : w.state.tableType = "word") :
    ∃ cell, w.wordCell? line = some cell ∧ cell.entry b.orthography ∈ b.tables.entries := by
  have htables := (isOf_of_ofSave hb).tables
  obtain ⟨_, hwalk, _⟩ := GrammarTables.compile_eq_ok.1 htables
  obtain ⟨_, hstep⟩ := hreads.exists_step hwalk
  obtain ⟨cell, hcell, _⟩ := GrammarWalk.exists_wordCell? hline htype hstep
  refine ⟨cell, hcell, ?_⟩
  rw [GrammarTables.entries_compile htables, List.mem_flatMap]
  exact ⟨.word cell, hreads.mem_items (GrammarWalk.mem_itemsOf_iff.2 hcell),
    List.mem_singleton_self _⟩

/-- The entries of the grammar are the words of its cells and its particles. -/
theorem of_mem_tables_entries (hb : ofSave save o = .ok (s, b)) {e : LexiconEntry}
    (he : e ∈ b.tables.entries) :
    (∃ w line cell, b.ReadsGrammar s w line ∧ w.wordCell? line = some cell ∧
      e = cell.entry b.orthography) ∨
    ∃ table, .table table ∈ b.grammarItems s ∧ e ∈ table.particles b.orthography := by
  rw [GrammarTables.entries_compile (isOf_of_ofSave hb).tables, List.mem_flatMap] at he
  obtain ⟨item, hitem, he⟩ := he
  cases item with
  | word cell =>
    obtain ⟨w, line, hreads, hcell⟩ := GrammarWalk.exists_reads_of_mem_items hitem
    exact .inl ⟨w, line, cell, hreads, hcell, List.mem_singleton.1 he⟩
  | table table => exact .inr ⟨table, hitem, he⟩

/-- The derived roots are made by the derivations of the save file. -/
theorem exists_derive_of_rootsFrom (hb : ofSave save o = .ok (s, b)) {roots : List LexiconEntry}
    (h : b.rootsFrom words = .ok roots) :
    ∃ d, Deriver.ofAffixes b.derivationalAffixes b.speller = .ok d ∧
      d.derive (WordList.listLines s.derivedWords) words = .ok roots := by
  obtain ⟨d, hd, hroots⟩ := deriveWords_false_eq_ok.1 h
  rw [(lists_of_ofSave hb).2, ← Deriver.derive_eq] at hroots
  exact ⟨d, hd, hroots⟩

/-- What is collected has the contents of the save file once it is tidied. -/
theorem hasContents_tidy (hb : ofSave save o = .ok (s, b)) (h : b.collected o = .ok entries) :
    b.HasContents s o (b.tidy entries) := by
  obtain ⟨words, roots, hwords, hroots⟩ := exists_gathers_of_collected h
  obtain ⟨listed, hlisted, heq⟩ := words_eq_ok.1 hwords
  rw [(isOf_of_ofSave hb).wordLines] at hlisted
  -- Whatever is among the words and the roots is there once.
  have honce : ∀ e : LexiconEntry, e.value ∈ (words ++ roots).map value →
      e.OnceIn (b.tidy entries) := fun e he ↦
    onceIn_tidied b.order (List.map_subset _ hroots.subset he)
  have honceWord : ∀ e ∈ words, e.OnceIn (b.tidy entries) := fun e he ↦
    honce e (List.mem_map_of_mem (List.mem_append_left _ he))
  constructor
  case listed =>
    intro line hline
    obtain ⟨word, hword⟩ := WordList.exists_read hlisted line hline
    refine ⟨word, hword, fun gloss hgloss ↦ honceWord _ (heq ▸ List.mem_append_right _ ?_)⟩
    exact (WordList.mem_entries_iff hlisted).2 ⟨line, hline, word, hword, gloss, hgloss, rfl⟩
  case cells =>
    intro w line path content hreads hline htype
    obtain ⟨cell, hcell, hentry⟩ := exists_wordCell?_of_readsGrammar hb hreads hline htype
    exact ⟨cell, hcell, honceWord _ (heq ▸ List.mem_append_left _ hentry)⟩
  case derived =>
    intro hderive
    obtain ⟨d, hd, hmade⟩ := exists_derive_of_rootsFrom hb (hroots.derived hderive)
    refine ⟨d, words, hd, hwords, fun before raw after hlines ↦ ?_⟩
    have hraw : trim raw.toList ≠ [] := WordList.trim_ne_nil_of_mem_listLines
      (hlines ▸ List.mem_append_right _ (List.mem_cons_self ..))
    rw [hlines] at hmade
    obtain ⟨rule, form, hforms, hglosses⟩ := Deriver.exists_forms hmade hraw
    rw [Deriver.speller_of_ofAffixes hd] at hglosses
    refine ⟨rule, form, hforms, fun gloss hgloss ↦ honce _ ?_⟩
    rw [List.map_append]
    exact List.mem_append_right _ (hglosses gloss hgloss)
  case rest =>
    intro hdecline e he
    have he := mem_of_mem_tidied b.order he
    rw [hroots.undeclined hdecline, heq, List.append_assoc, List.mem_append, List.mem_append] at he
    rcases he with he | he | he
    · exact .inr ((of_mem_tables_entries hb he).imp id .inl)
    · exact .inl ((WordList.mem_entries_iff hlisted).1 he)
    · cases hderive : o.derive with
      | false =>
        rw [hroots.underived hderive] at he
        exact absurd he List.not_mem_nil
      | true =>
        obtain ⟨d, hd, hmade⟩ := exists_derive_of_rootsFrom hb (hroots.derived hderive)
        have hforms := Deriver.exists_forms_of_mem hmade he
        rw [Deriver.speller_of_ofAffixes hd] at hforms
        exact .inr (.inr (.inr ⟨rfl, d, words, hd, hwords, hforms⟩))

end Blueprint

/-- **Each word of a save file stands in the lexicon exactly once.** -/
theorem buildLanguage_hasContents (save : Json) (o : BuildOptions) (l : Language)
    (h : buildLanguage save o = .ok l) :
    ∃ s b, Blueprint.ofSave save o = .ok (s, b) ∧ b.HasContents s o l.lexicon := by
  obtain ⟨s, b, entries, hb, hentries, rfl⟩ := buildLanguage_eq_ok.1 h
  exact ⟨s, b, hb, Blueprint.hasContents_tidy hb hentries⟩

/-- A grammar with a word of its own and a particle. -/
def pointerGrammar : List String :=
  ["TABLE TYPE = word", "part-of-speech = det", "cols = Far", "F ~ that = ta", "TABLE TYPE = affix",
    "cols = Yes", "Y ~ ga -"]

/-- A house that is a building too, the home that is derived from it, and the grammar. -/
def pointerSave : Json :=
  SaveFile.ofTexts "house, building : n = ka" "home : n = house"
    (String.intercalate "\n" pointerGrammar)

/-- The second gloss, the word of the cell and the derived home are there once each, though the
two roots sound alike. -/
theorem buildLanguage_hasContents_pointerSave :
    ∃ l s b, buildLanguage pointerSave .default = .ok l ∧
      Blueprint.ofSave pointerSave .default = .ok (s, b) ∧ b.HasContents s .default l.lexicon ∧
      (LexiconEntry.root "ka" (b.speller.spell "ka") "building" "n").OnceIn l.lexicon ∧
      (LexiconEntry.new "ta" (b.speller.spell "ta") " that " "det" ["Far"]).OnceIn l.lexicon ∧
      ∃ form, (LexiconEntry.root form (b.speller.spell form) "home " " n ").OnceIn l.lexicon := by
  have hok : (buildLanguage pointerSave .default).isOk = true := by decide +kernel
  obtain ⟨l, hl⟩ := exists_eq_ok_of_isOk hok
  obtain ⟨s, b, hb, hcontents⟩ := buildLanguage_hasContents pointerSave .default l hl
  have hread : (SaveFile.ofJson pointerSave).map (fun s ↦
      (WordList.listLines s.words, WordList.listLines s.derivedWords, s.instructions))
        = .ok (["house, building : n = ka"], ["home : n = house"], pointerGrammar) := by
    decide
  rw [(Blueprint.ofSave_eq_ok.1 hb).1] at hread
  simp only [Except.map, Except.ok.injEq, Prod.mk.injEq] at hread
  obtain ⟨hwords, hderived, hgrammar⟩ := hread
  refine ⟨l, s, b, hl, hb, hcontents, ?_, ?_, ?_⟩
  · obtain ⟨word, hword, hglosses⟩ := hcontents.listed _ (hwords ▸ List.mem_singleton_self _)
    have hbuilding : WordNotation.read "house, building : n = ka"
        = .ok ⟨["house", "building"], "n", "ka"⟩ := by decide
    cases hbuilding.symm.trans hword
    exact hglosses "building" (by decide)
  · obtain ⟨cell, hcell, hentry⟩ := hcontents.cells _ "F ~ that = ta" _ _
      ⟨pointerGrammar.take 3, pointerGrammar.drop 4, hgrammar, rfl⟩ rfl rfl
    cases hcell
    exact hentry
  · obtain ⟨d, words, hd, _, hlines⟩ := hcontents.derived rfl
    obtain ⟨rule, form, hforms, hglosses⟩ := hlines [] _ [] hderived
    have hhome : DerivationRule.read (trim "home : n = house".toList)
        = .ok ⟨"home : n = house", ["home ".toList], " n ".toList,
          Component.readAll " house".toList⟩ := by decide
    cases hhome.symm.trans hforms.read
    exact ⟨String.ofList form, hglosses "home ".toList (List.mem_singleton_self _)⟩

end Glossopoeia
