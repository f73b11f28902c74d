import Glossopoeia.Proofs.Derivation.Spelled
import Glossopoeia.Proofs.GrammarTable.Spelled
import Glossopoeia.Proofs.Language.Upkeep

/-!
# A language is spelled as it sounds

Entries come into a document from the word list, from word tables, from the particles of affix
tables, from derivations and from declensions, and each of the five spells and trims for itself.
They agree as long as no blank comes in: none in the phonetic forms that the save file gives
(`SaveFile.phoneticForms`), and none in what prefixes and suffixes add (`AffixMap.AddsSolid`).

A document *is spelled* if its entries are and the rules in it keep it so
(`Language.IsSpelled`).  A built document is spelled, and upkeep, which compiles the speller anew
from the document's sound map, keeps it spelled, whatever is done in which order.
-/

set_option autoImplicit false

namespace Glossopoeia

open LexiconEntry Outcome Text

/-! ## What a save file gives -/

/-- The phonetic forms that the word list and the word tables give. -/
def SaveFile.phoneticForms (s : SaveFile) : List (List Char) :=
  (WordList.listLines s.words).filterMap (fun line ↦
    (WordNotation.read line).toOption.map fun word ↦ word.phonetic.toList)
    ++ GrammarWalk.wordForms "" s.instructions

/-- No blank stands in what the prefixes and suffixes of slots add to words. -/
def AffixMap.AddsSolid (map : AffixMap) : Prop :=
  map.Holds fun kind rule ↦ kind = .front ∨ kind = .back →
    ∀ add ∈ rule.affix.additions, Solid add.toList

/-! ## Spelled documents -/

/-- The entries of the document are spelled by the speller of its sound map, and its rules keep
words solid. -/
structure Language.IsSpelled (l : Language) (speller : Speller) : Prop where
  /-- It is the speller of the sound map. -/
  soundMap : Speller.ofSoundMap l.soundMap = .ok speller
  /-- Slots keep words solid. -/
  slots : l.affixMap.KeepsSolid
  /-- Derivational affixes keep words solid. -/
  affixes : l.derivationalAffixes.KeepsSolid
  /-- The entries are spelled. -/
  entries : ∀ e ∈ l.lexicon, e.IsSpelled speller

namespace Blueprint

variable {save : Json} {o : BuildOptions} {s : SaveFile} {b : Blueprint}

theorem keepsSolid_affixMap (hb : ofSave save o = .ok (s, b))
    (hadds : b.tables.affixMap.AddsSolid) : b.tables.affixMap.KeepsSolid := by
  intro slots hslots slot hslot rule hrule hkind
  have hmakes := GrammarTables.makes_compile (isOf_of_ofSave hb).tables
  exact (hmakes slots hslots slot hslot rule hrule).keepsSolid hkind
    (hadds slots hslots slot hslot rule hrule)

theorem keepsSolid_derivationalAffixes (hb : ofSave save o = .ok (s, b)) :
    b.derivationalAffixes.KeepsSolid := by
  have haffixes := (isOf_of_ofSave hb).affixes
  rw [Orthography.compileDerivationals, bind_eq_ok] at haffixes
  obtain ⟨entries, hentries, haffixes⟩ := haffixes
  rw [← pure_eq_ok.1 haffixes]
  intro a ha
  obtain ⟨tag, htag⟩ := Dictionary.mem_values_ofList ha
  obtain ⟨line, _, hcompiled⟩ := exists_of_mem_mapM hentries _ htag
  exact Orthography.keepsSolid_compileDerivational hcompiled

/-- The words of solid lists and tables are spelled. -/
theorem isSpelled_of_mem_words (hb : ofSave save o = .ok (s, b))
    (hforms : ∀ form ∈ s.phoneticForms, Solid form) {words : List LexiconEntry}
    (hwords : b.words = .ok words) : ∀ e ∈ words, e.IsSpelled b.speller := by
  rw [Blueprint.words, bind_eq_ok] at hwords
  obtain ⟨listed, hlisted, hwords⟩ := hwords
  rw [← pure_eq_ok.1 hwords]
  intro e he
  rcases List.mem_append.1 he with he | he
  · refine GrammarTables.isSpelled_compile (fun form hform ↦ hforms form ?_)
      (isOf_of_ofSave hb).tables e he
    exact List.mem_append_right _ hform
  · refine WordList.isSpelled_of_mem_entries (fun line hline word hword ↦ hforms _ ?_) hlisted e he
    refine List.mem_append_left _ (List.mem_filterMap.2 ⟨line, ?_, ?_⟩)
    · rwa [← (isOf_of_ofSave hb).wordLines]
    · rw [hword]
      rfl

/-- What is collected from solid lists and tables is spelled, with derivation and declension or
without them. -/
theorem isSpelled_of_mem_collected (hb : ofSave save o = .ok (s, b))
    (hforms : ∀ form ∈ s.phoneticForms, Solid form) (hadds : b.tables.affixMap.AddsSolid)
    {entries : List LexiconEntry} (h : b.collected o = .ok entries) :
    ∀ e ∈ entries, e.IsSpelled b.speller := by
  obtain ⟨words, all, hwords, hall, h⟩ := collected_eq_ok.1 h
  have hspelled := isSpelled_of_mem_words hb hforms hwords
  have hmap := keepsSolid_affixMap hb hadds
  have hall : ∀ e ∈ all, e.IsSpelled b.speller := by
    cases hderive : o.derive with
    | false =>
      rw [withDerived_of_false hderive] at hall
      cases hall
      exact hspelled
    | true =>
      obtain ⟨derived, hderived, rfl⟩ := (withDerived_eq_ok hderive).1 hall
      have haffixes := keepsSolid_derivationalAffixes hb
      have hwords := isSpelled_deriveWords hspelled haffixes hmap hderived
      exact fun e he ↦ (List.mem_append.1 he).elim (hspelled e) (hwords e)
  cases hdecline : o.decline with
  | false =>
    rw [withDeclined_of_false hdecline] at h
    cases h
    exact hall
  | true =>
    obtain ⟨decliner, hdecliner, rfl⟩ := (withDeclined_eq_ok hdecline).1 h
    have hdeclined := isSpelled_of_mem_declinedForms hdecliner hmap hall
    exact fun e he ↦ (List.mem_append.1 he).elim (hall e) (hdeclined e)

end Blueprint

namespace Language

variable {l : Language} {speller : Speller}

theorem isSpelled_of_buildLanguage {save : Json} {o : BuildOptions}
    (h : buildLanguage save o = .ok l)
    (hforms : ∀ s, SaveFile.ofJson save = .ok s → ∀ form ∈ s.phoneticForms, Solid form)
    (hadds : l.affixMap.AddsSolid) : ∃ speller, l.IsSpelled speller := by
  obtain ⟨s, b, entries, hb, hentries, rfl⟩ := buildLanguage_eq_ok.1 h
  refine ⟨b.speller, (Blueprint.isOf_of_ofSave hb).speller, Blueprint.keepsSolid_affixMap hb hadds,
    Blueprint.keepsSolid_derivationalAffixes hb, fun e he ↦ ?_⟩
  exact Blueprint.isSpelled_of_mem_collected hb (hforms s (Blueprint.ofSave_eq_ok.1 hb).1) hadds
    hentries e (mem_of_mem_tidied b.order he)

theorem IsSpelled.declinedWords (h : l.IsSpelled speller) {forms : List LexiconEntry}
    (hforms : l.declinedWords = .ok forms) : ∀ f ∈ forms, f.IsSpelled speller := by
  obtain ⟨_, decliner, hspeller, hdecliner, rfl⟩ := Language.declinedWords_eq_ok.1 hforms
  cases h.soundMap.symm.trans hspeller
  exact Blueprint.isSpelled_of_mem_declinedForms hdecliner h.slots h.entries

theorem IsSpelled.derivedFamilies (h : l.IsSpelled speller) {words : List LexiconEntry}
    (hwords : l.derivedFamilies = .ok words) : ∀ e ∈ words, e.IsSpelled speller := by
  rw [Language.derivedFamilies, h.soundMap] at hwords
  exact isSpelled_deriveWords h.entries h.affixes h.slots hwords

/-- What an operation leaves is spelled, before it is tidied. -/
theorem IsSpelled.collected (h : l.IsSpelled speller) {op : Upkeep} {entries : List LexiconEntry}
    (hentries : op.collected l = .ok entries) : ∀ e ∈ entries, e.IsSpelled speller := by
  cases op with
  | decline =>
    obtain ⟨forms, hforms, rfl⟩ := map_eq_ok.1 hentries
    exact fun e he ↦ (List.mem_append.1 he).elim (h.entries e) (h.declinedWords hforms e)
  | derive =>
    obtain ⟨words, hwords, rfl⟩ := map_eq_ok.1 hentries
    exact fun e he ↦ (List.mem_append.1 he).elim (h.entries e) (h.derivedFamilies hwords e)
  | removeDeclined =>
    cases hentries
    exact fun e he ↦ h.entries e (List.mem_of_mem_filter he)
  | removeDerived =>
    cases hentries
    exact fun e he ↦ h.entries e (List.mem_of_mem_filter he)

/-- **An operation keeps a document spelled**: it leaves the sound map and the rules alone, and what
it adds is spelled by them. -/
theorem IsSpelled.run (h : l.IsSpelled speller) (op : Upkeep) :
    (op.run l).2.IsSpelled speller := by
  rw [Upkeep.run_eq]
  cases hentries : op.collected l with
  | error e => exact h
  | ok entries =>
    have hspelled : ∀ e ∈ l.tidy entries, e.IsSpelled speller :=
      fun e he ↦ h.collected hentries e (mem_of_mem_tidied _ he)
    cases op <;> exact ⟨h.soundMap, h.slots, h.affixes, hspelled⟩

theorem IsSpelled.runAll (h : l.IsSpelled speller) (ops : List Upkeep) :
    (Upkeep.runAll ops l).IsSpelled speller := by
  induction ops generalizing l with
  | nil => exact h
  | cons op ops ih => exact ih (h.run op)

end Language

/-- **A language is spelled as it sounds.**  If no blank stands in the phonetic forms of a save file
nor in what its prefixes and suffixes add, then in the document that is built from it, however it is
kept up, every entry is spelled as the speller of the document's sound map spells its phonetic
form. -/
theorem spelled_eq_spell_phonetic (save : Json) (o : BuildOptions) (l : Language)
    (hbuild : buildLanguage save o = .ok l)
    (hforms : ∀ s, SaveFile.ofJson save = .ok s → ∀ form ∈ s.phoneticForms, Solid form)
    (hadds : l.affixMap.AddsSolid) (ops : List Upkeep) :
    ∃ speller, Speller.ofSoundMap (Upkeep.runAll ops l).soundMap = .ok speller ∧
      ∀ e ∈ (Upkeep.runAll ops l).lexicon, e.spelled = speller.spell e.phonetic := by
  obtain ⟨speller, hspelled⟩ := Language.isSpelled_of_buildLanguage hbuild hforms hadds
  have hafter := hspelled.runAll ops
  exact ⟨speller, hafter.soundMap, fun e he ↦ (hafter.entries e he).spelled⟩

/-- The save file of the house and the home has no blanks in its forms, nor has its plural. -/
theorem spelled_eq_spell_phonetic_homeSave :
    ∃ l speller, buildLanguage homeSave .default = .ok l ∧
      Speller.ofSoundMap (Upkeep.runAll [.decline, .removeDerived, .derive] l).soundMap
        = .ok speller ∧
      ∀ e ∈ (Upkeep.runAll [.decline, .removeDerived, .derive] l).lexicon,
        e.spelled = speller.spell e.phonetic := by
  have hforms : (SaveFile.ofJson homeSave).map SaveFile.phoneticForms = .ok ["ka".toList] := by
    decide
  have hmap : (buildLanguage homeSave .default).map (fun l ↦ l.affixMap.entries)
      = .ok [("n", [⟨.back, [⟨"Plural", .plain "i" "i"⟩]⟩])] := by
    simp only [buildLanguage, Blueprint.lexicon, LexicalOrder.sortEntries,
      LexicalOrder.sortByKey_eq_insertionSort]
    decide
  obtain ⟨l, hl, hentries⟩ := map_eq_ok.1 hmap
  obtain ⟨speller, hspeller, hspelled⟩ := spelled_eq_spell_phonetic homeSave .default l hl
    (fun s hs ↦ by
      rw [hs] at hforms
      rw [Except.ok.inj hforms, List.forall_mem_singleton]
      decide)
    (by
      intro slots hslots slot hslot rule hrule _
      obtain ⟨pos, hpos⟩ := Dictionary.mem_values_iff.1 hslots
      rw [hentries, List.mem_singleton, Prod.mk.injEq] at hpos
      obtain ⟨-, rfl⟩ := hpos
      rw [List.mem_singleton.1 hslot] at hrule
      rw [List.mem_singleton.1 hrule, AffixRule.additions, List.forall_mem_singleton]
      decide)
    [.decline, .removeDerived, .derive]
  exact ⟨l, speller, hl, hspeller, hspelled⟩

end Glossopoeia
