import Glossopoeia.Language.Build
import Glossopoeia.Proofs.GrammarTable.Entries
import Glossopoeia.Proofs.Derivation.Roots

/-!
# The words that a build puts into a document

A build reads a blueprint off the save file, collects entries and tidies them.  Whether words are
derived or declined does not touch the blueprint, and `Blueprint.ofSave` is the same by definition
under either option.  So what the options change is only which entries are collected: the words of
the tables and the list, the roots derived from them, and the forms of either.
`Blueprint.collected` is that list before it is tidied, and the lemmas `collected_…` say what it is
under each choice of options.

The words of the tables and the list are basic, that is neither derived nor declined, which is what
the flags of a document rely on.  They also have one label each, so whether one is a root can be
told from its value.
-/

set_option autoImplicit false

namespace Glossopoeia

open LexiconEntry Outcome

/-- The entry is neither derived nor declined, and has one label. -/
structure LexiconEntry.IsBasic (e : LexiconEntry) : Prop where
  /-- It does not come from a derivation. -/
  not_derived : e.derived = false
  /-- It is no declined form. -/
  not_declined : e.declined = false
  /-- It has one label. -/
  one_label : ∃ label, e.declensions = [label]

/-- Of entries with one label, those with the same value are both roots or neither is. -/
theorem LexiconEntry.isRoot_eq_of_value_eq {a b : LexiconEntry} (ha : a.IsBasic) (hb : b.IsBasic)
    (h : a.value = b.value) : a.isRoot = b.isRoot := by
  obtain ⟨x, hx⟩ := ha.one_label
  obtain ⟨y, hy⟩ := hb.one_label
  have hkey : a.declensionKey = b.declensionKey := congrArg Value.declensionKey h
  rw [declensionKey, declensionKey, hx, hy] at hkey
  have hxy : x = y := by simpa using hkey
  rw [isRoot, isRoot, hx, hy, hxy]

namespace Blueprint

/-- The save file that a value is, and what it says about making words. -/
def ofSave (save : Json) (o : BuildOptions) : Except Error (SaveFile × Blueprint) := do
  let s ← SaveFile.ofJson save
  let b ← ofSaveFile s o
  return (s, b)

/-- The entries of the lexicon before they are tidied. -/
def collected (b : Blueprint) (o : BuildOptions) : Except Error (List LexiconEntry) := do
  let words ← b.words
  let words ← b.withDerived o words
  b.withDeclined o words

/-- The entries, each once and in the order of the alphabet. -/
abbrev tidy (b : Blueprint) (entries : List LexiconEntry) : List LexiconEntry :=
  b.order.sortEntries (dedupLexicon entries)

theorem ofSave_eq_ok {save : Json} {o : BuildOptions} {s : SaveFile} {b : Blueprint} :
    ofSave save o = .ok (s, b) ↔ SaveFile.ofJson save = .ok s ∧ ofSaveFile s o = .ok b := by
  rw [ofSave, bind_eq_ok]
  constructor
  · rintro ⟨s', hs, h⟩
    obtain ⟨b', hb, h⟩ := bind_eq_ok.1 h
    cases pure_eq_ok.1 h
    exact ⟨hs, hb⟩
  · rintro ⟨hs, hb⟩
    exact ⟨s, hs, bind_eq_ok.2 ⟨b, hb, rfl⟩⟩

/-- Where the parts of a blueprint come from in the save file. -/
structure IsOf (b : Blueprint) (s : SaveFile) : Prop where
  /-- The words are those of the word list. -/
  wordLines : b.wordLines = WordList.listLines s.words
  /-- The speller is that of the sound map. -/
  speller : Speller.ofSoundMap b.spelling.soundMap = .ok b.speller
  /-- The tables are those of the grammar. -/
  tables : GrammarTables.compile ⟨b.spelling.phonetic, b.spelling.spelled, b.speller⟩
    b.partsOfSpeech s.instructions = .ok b.tables
  /-- The derivational affixes are those of the list. -/
  affixes : Orthography.compileDerivationals
    ⟨b.spelling.phonetic, b.spelling.spelled, b.speller⟩ (Text.linesOf s.derivationalAffixes)
      = .ok b.derivationalAffixes

theorem isOf_of_ofSave {save : Json} {o : BuildOptions} {s : SaveFile} {b : Blueprint}
    (h : ofSave save o = .ok (s, b)) : b.IsOf s := by
  obtain ⟨-, hb⟩ := ofSave_eq_ok.1 h
  rw [ofSaveFile] at hb
  obtain ⟨partsOfSpeech, -, hb⟩ := bind_eq_ok.1 hb
  obtain ⟨spelling, -, hb⟩ := bind_eq_ok.1 hb
  obtain ⟨speller, hspeller, hb⟩ := bind_eq_ok.1 hb
  obtain ⟨tables, htables, hb⟩ := bind_eq_ok.1 hb
  obtain ⟨affixes, haffixes, hb⟩ := bind_eq_ok.1 hb
  cases pure_eq_ok.1 hb
  exact ⟨rfl, hspeller, htables, haffixes⟩

/-! ## Basic words -/

theorem isBasic_of_mem_entries {lines : List String} {speller : Speller}
    {entries : List LexiconEntry} (h : WordList.entries lines speller = .ok entries) :
    ∀ e ∈ entries, e.IsBasic := by
  rw [WordList.entries, bind_eq_ok] at h
  obtain ⟨words, -, h⟩ := h
  rw [← pure_eq_ok.1 h]
  intro e he
  obtain ⟨word, _, he⟩ := List.mem_flatMap.1 he
  obtain ⟨gloss, _, rfl⟩ := List.mem_map.1 he
  exact ⟨rfl, rfl, _, rfl⟩

/-- The words of the tables and the list are basic. -/
theorem isBasic_of_mem_words {save : Json} {o : BuildOptions} {s : SaveFile} {b : Blueprint}
    (h : ofSave save o = .ok (s, b)) {words : List LexiconEntry} (hwords : b.words = .ok words) :
    ∀ e ∈ words, e.IsBasic := by
  rw [Blueprint.words, bind_eq_ok] at hwords
  obtain ⟨listed, hlisted, hwords⟩ := hwords
  rw [← pure_eq_ok.1 hwords]
  intro e he
  rcases List.mem_append.1 he with he | he
  · have hnew : HoldsOfNew IsBasic := fun _ _ _ _ _ ↦ ⟨rfl, rfl, _, rfl⟩
    exact GrammarTables.forall_mem_compile hnew (isOf_of_ofSave h).tables e he
  · exact isBasic_of_mem_entries hlisted e he

/-! ## What is collected -/

section Collected

variable {b : Blueprint} {o : BuildOptions} {words entries : List LexiconEntry}

theorem withDerived_of_false (h : o.derive = false) : b.withDerived o words = .ok words := by
  rw [withDerived, h, if_neg Bool.false_ne_true]

theorem withDerived_eq_ok (h : o.derive = true) :
    b.withDerived o words = .ok entries ↔
      ∃ derived, deriveWords b.derivedLines b.derivationalAffixes words b.tables.affixMap b.speller
        o.decline = .ok derived ∧ entries = words ++ derived := by
  rw [withDerived, h, if_pos rfl, bind_eq_ok]
  exact exists_congr fun _ ↦ and_congr_right fun _ ↦ pure_eq_ok.trans eq_comm

theorem withDeclined_of_false (h : o.decline = false) : b.withDeclined o words = .ok words := by
  rw [withDeclined, h, if_neg Bool.false_ne_true]

theorem withDeclined_eq_ok (h : o.decline = true) :
    b.withDeclined o words = .ok entries ↔
      ∃ decliner, Decliner.ofAffixMap b.tables.affixMap b.speller = .ok decliner ∧
        entries = words ++ declinedForms decliner words := by
  rw [withDeclined, h, if_pos rfl, bind_eq_ok]
  exact exists_congr fun _ ↦ and_congr_right fun _ ↦ pure_eq_ok.trans eq_comm

theorem collected_eq_ok :
    b.collected o = .ok entries ↔
      ∃ words all, b.words = .ok words ∧ b.withDerived o words = .ok all ∧
        b.withDeclined o all = .ok entries := by
  simp only [collected, bind_eq_ok, exists_and_left]

/-- Without declension, the derived roots follow the words; there are none without derivation. -/
theorem collected_undeclined_eq_ok (hdecline : o.decline = false) :
    b.collected o = .ok entries ↔
      ∃ words, b.words = .ok words ∧ b.withDerived o words = .ok entries := by
  simp only [collected_eq_ok, withDeclined_of_false hdecline]
  constructor
  · rintro ⟨words, all, hwords, hall, h⟩
    cases h
    exact ⟨words, hwords, hall⟩
  · rintro ⟨words, hwords, hentries⟩
    exact ⟨words, entries, hwords, hentries, rfl⟩

/-- Without declension, a derivation puts roots after the words, derived and not declined. -/
theorem exists_roots_of_withDerived (hdecline : o.decline = false)
    (h : b.withDerived o words = .ok entries) :
    ∃ roots, entries = words ++ roots ∧ ∀ e ∈ roots, e.derived = true ∧ e.declined = false := by
  cases hderive : o.derive with
  | false =>
    rw [withDerived_of_false hderive] at h
    cases h
    exact ⟨[], (List.append_nil words).symm, fun _ he ↦ absurd he List.not_mem_nil⟩
  | true =>
    obtain ⟨roots, hroots, rfl⟩ := (withDerived_eq_ok hderive).1 h
    rw [hdecline] at hroots
    exact ⟨roots, rfl, mem_deriveWords hroots⟩

/-- What a build collects without declension is not declined. -/
theorem not_declined_of_mem_collected {save : Json} {s : SaveFile}
    (hb : ofSave save o = .ok (s, b)) (hdecline : o.decline = false)
    (h : b.collected o = .ok entries) : ∀ e ∈ entries, e.declined = false := by
  obtain ⟨words, hwords, h⟩ := (collected_undeclined_eq_ok hdecline).1 h
  obtain ⟨roots, rfl, hroots⟩ := exists_roots_of_withDerived hdecline h
  intro e he
  rcases List.mem_append.1 he with he | he
  · exact (isBasic_of_mem_words hb hwords e he).not_declined
  · exact (hroots e he).2

/-- What a build collects without derivation is not derived. -/
theorem not_derived_of_mem_collected {save : Json} {s : SaveFile}
    (hb : ofSave save o = .ok (s, b)) (hderive : o.derive = false)
    (h : b.collected o = .ok entries) : ∀ e ∈ entries, e.derived = false := by
  obtain ⟨words, all, hwords, hall, h⟩ := collected_eq_ok.1 h
  rw [withDerived_of_false hderive] at hall
  cases hall
  have hbasic : ∀ e ∈ words, e.derived = false :=
    fun e he ↦ (isBasic_of_mem_words hb hwords e he).not_derived
  cases hdecline : o.decline with
  | false =>
    rw [withDeclined_of_false hdecline] at h
    cases h
    exact hbasic
  | true =>
    obtain ⟨decliner, _, rfl⟩ := (withDeclined_eq_ok hdecline).1 h
    intro f hf
    rcases List.mem_append.1 hf with hf | hf
    · exact hbasic f hf
    · obtain ⟨_, e, he, hsame⟩ := provenance_of_mem_declinedForms hf
      exact hsame ▸ hbasic e he

/-- The roots that the derivations make from words. -/
def rootsFrom (b : Blueprint) (words : List LexiconEntry) : Except Error (List LexiconEntry) :=
  deriveWords b.derivedLines b.derivationalAffixes words b.tables.affixMap b.speller false

/-- Without derivation and declension the words are all there is. -/
theorem collected_plain_eq_ok (hdecline : o.decline = false) :
    b.collected { o with derive := false } = .ok entries ↔ b.words = .ok entries := by
  rw [collected_undeclined_eq_ok (o := { o with derive := false }) hdecline]
  simp only [withDerived_of_false]
  constructor
  · rintro ⟨words, hwords, heq⟩
    cases heq
    exact hwords
  · exact fun hwords ↦ ⟨entries, hwords, rfl⟩

/-- With derivation alone, the roots made from the words follow them. -/
theorem collected_derived_eq_ok (hdecline : o.decline = false) :
    b.collected { o with derive := true } = .ok entries ↔
      ∃ words roots, b.words = .ok words ∧ b.rootsFrom words = .ok roots ∧
        entries = words ++ roots := by
  have hderived : ∀ words, b.withDerived { o with derive := true } words = .ok entries ↔
      ∃ roots, b.rootsFrom words = .ok roots ∧ entries = words ++ roots := by
    intro words
    rw [withDerived_eq_ok rfl, rootsFrom, ← hdecline]
  rw [collected_undeclined_eq_ok (o := { o with derive := true }) hdecline]
  simp only [hderived, exists_and_left]

/-! ## With declension -/

/-- With declension, a derivation puts the families of the same roots after the words. -/
theorem withDerived_declined_eq_ok {decliner : Decliner}
    (hdecliner : Decliner.ofAffixMap b.tables.affixMap b.speller = .ok decliner) :
    b.withDerived { o with decline := true } words = .ok entries ↔
      ∃ roots, b.withDerived { o with decline := false } words = .ok (words ++ roots) ∧
        entries = words ++ withFamilies decliner roots := by
  cases o.derive with
  | false =>
    rw [withDerived_of_false rfl, withDerived_of_false rfl]
    constructor
    · intro h
      cases h
      exact ⟨[], by rw [List.append_nil], (List.append_nil words).symm⟩
    · rintro ⟨roots, hroots, rfl⟩
      have hnil : roots = [] := by simpa using hroots
      rw [hnil]
      exact congrArg Except.ok (List.append_nil words).symm
  | true =>
    rw [withDerived_eq_ok rfl]
    simp only [withDerived_eq_ok (o := { o with derive := true, decline := false }) rfl,
      deriveWords_true_eq_ok, hdecliner]
    constructor
    · rintro ⟨_, ⟨_, roots, hd, hroots, rfl⟩, rfl⟩
      cases hd
      exact ⟨roots, ⟨roots, hroots, rfl⟩, rfl⟩
    · rintro ⟨roots, ⟨derived, hderived, heq⟩, rfl⟩
      cases List.append_cancel_left heq
      exact ⟨_, ⟨decliner, roots, rfl, hderived, rfl⟩, rfl⟩

/-- With declension, the forms of all words and roots follow, those of the roots a second time. -/
theorem collected_declined_eq_ok {save : Json} {s : SaveFile} (hb : ofSave save o = .ok (s, b)) :
    b.collected { o with decline := true } = .ok entries ↔
      ∃ decliner words roots, Decliner.ofAffixMap b.tables.affixMap b.speller = .ok decliner ∧
        b.words = .ok words ∧
        b.withDerived { o with decline := false } words = .ok (words ++ roots) ∧
        entries = words ++ withFamilies decliner roots
          ++ (words ++ roots).flatMap decliner.declineEntry := by
  rw [collected_eq_ok]
  simp only [withDeclined_eq_ok (o := { o with decline := true }) rfl]
  -- Of the families only the roots are declined again.
  have hforms : ∀ (decliner : Decliner) (words roots : List LexiconEntry), b.words = .ok words →
      b.withDerived { o with decline := false } words = .ok (words ++ roots) →
      declinedForms decliner (words ++ withFamilies decliner roots)
        = (words ++ roots).flatMap decliner.declineEntry := by
    intro decliner words roots hwords hroots
    obtain ⟨roots', heq, hplain⟩ := exists_roots_of_withDerived rfl hroots
    cases List.append_cancel_left heq
    have hkept : words.filter (fun e ↦ !e.declined) = words := by
      rw [List.filter_eq_self]
      intro e he
      simp [(isBasic_of_mem_words hb hwords e he).not_declined]
    rw [declinedForms, List.filter_append, hkept,
      filter_undeclined_withFamilies fun r hr ↦ (hplain r hr).2]
  constructor
  · rintro ⟨words, _, hwords, hall, decliner, hdecliner, rfl⟩
    obtain ⟨roots, hroots, rfl⟩ := (withDerived_declined_eq_ok hdecliner).1 hall
    exact ⟨decliner, words, roots, hdecliner, hwords, hroots,
      by rw [hforms decliner words roots hwords hroots]⟩
  · rintro ⟨decliner, words, roots, hdecliner, hwords, hroots, rfl⟩
    exact ⟨words, _, hwords, (withDerived_declined_eq_ok hdecliner).2 ⟨roots, hroots, rfl⟩,
      decliner, hdecliner, by rw [hforms decliner words roots hwords hroots]⟩

/-- **Declension adds the forms of what is collected without it, and nothing else**, even though the
roots that a derivation makes are declined both as they are made and with all other words. -/
theorem values_of_collected_declined {save : Json} {s : SaveFile}
    (hb : ofSave save o = .ok (s, b)) {plain : List LexiconEntry} {decliner : Decliner}
    (hplain : b.collected { o with decline := false } = .ok plain)
    (hdecliner : Decliner.ofAffixMap b.tables.affixMap b.speller = .ok decliner) :
    ∃ declined, b.collected { o with decline := true } = .ok declined ∧
      ∀ v, v ∈ declined.map value ↔
        v ∈ plain.map value ∨ v ∈ (plain.flatMap decliner.declineEntry).map value := by
  obtain ⟨words, hwords, hplain⟩ := (collected_undeclined_eq_ok rfl).1 hplain
  obtain ⟨roots, rfl, _⟩ := exists_roots_of_withDerived rfl hplain
  refine ⟨_, (collected_declined_eq_ok hb).2
    ⟨decliner, words, roots, hdecliner, hwords, hplain, rfl⟩, fun v ↦ ?_⟩
  simp only [List.map_append, List.mem_append, mem_values_withFamilies, List.flatMap_append]
  tauto

end Collected

end Blueprint

/-! ## The document around it -/

/-- The value of a save file that has a word list, derivations and a grammar, and nothing else. -/
def SaveFile.ofTexts (words derivedWords grammar : String) : Json :=
  .object [("words", .object [("value", .text words)]),
    ("derivedWords", .object [("value", .text derivedWords)]),
    ("grammarEditor", .object [("ops", .list [.object [("insert", .text grammar)]])])]

theorem buildLanguage_eq_ok {save : Json} {o : BuildOptions} {l : Language} :
    buildLanguage save o = .ok l ↔
      ∃ s b entries, Blueprint.ofSave save o = .ok (s, b) ∧ b.collected o = .ok entries ∧
        l = b.document o s save (b.tidy entries) := by
  have hlexicon : ∀ (b : Blueprint) (lexicon : List LexiconEntry), b.lexicon o = .ok lexicon ↔
      ∃ entries, b.collected o = .ok entries ∧
        lexicon = b.order.sortEntries (dedupLexicon entries) := by
    intro b lexicon
    simp only [Blueprint.lexicon, Blueprint.collected, bind_eq_ok, pure_eq_ok]
    constructor
    · rintro ⟨words, hwords, derived, hderived, declined, hdeclined, rfl⟩
      exact ⟨declined, ⟨words, hwords, derived, hderived, hdeclined⟩, rfl⟩
    · rintro ⟨declined, ⟨words, hwords, derived, hderived, hdeclined⟩, rfl⟩
      exact ⟨words, hwords, derived, hderived, declined, hdeclined, rfl⟩
  simp only [buildLanguage, Blueprint.ofSave, bind_eq_ok, pure_eq_ok, hlexicon, Prod.mk.injEq]
  constructor
  · rintro ⟨s, hs, b, hb, lexicon, ⟨entries, hentries, rfl⟩, rfl⟩
    exact ⟨s, b, entries, ⟨s, hs, b, hb, rfl, rfl⟩, hentries, rfl⟩
  · rintro ⟨s, b, entries, ⟨s', hs, b', hb, rfl, rfl⟩, hentries, rfl⟩
    exact ⟨s', hs, b', hb, _, ⟨entries, hentries, rfl⟩, rfl⟩

/-- A house, the home that is derived from it, and the plural of nouns. -/
def homeSave : Json :=
  SaveFile.ofTexts "house : n = ka" "home : n = house"
    "TABLE TYPE = affix\npart-of-speech = n\ncols = Plural\nP ~ -i"

theorem exists_buildLanguage_homeSave : ∃ l, buildLanguage homeSave .default = .ok l := by
  have hok : (buildLanguage homeSave .default).isOk = true := by decide
  exact exists_eq_ok_of_isOk hok

end Glossopoeia
