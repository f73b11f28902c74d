import Mathlib.Data.List.Flatten
import Glossopoeia.Proofs.GrammarTable.Names
import Glossopoeia.Proofs.Language.Contents

/-!
# The slots of nouns

A table for `n` is about every noun tag of the word list: its slots are put under each of them.
Which tags those are is settled before the derivations are run, so a derived noun has the slots of
`n` if some word of the word list has its tag.  If none has, the tables for that very tag are all
there is, and for `n` itself there are none (`buildLanguage_nounSlots`).

A root that is not derived comes from the word list, since neither the entries of the grammar nor
declined forms are labelled as roots (`mem_listed_of_isRoot`), and the tags of the word list are
known.
-/

set_option autoImplicit false

namespace Glossopoeia

open LexiconEntry Outcome Text

/-! ## Noun tags -/

/-- A part of speech counts as a noun if it begins with an `n`, blanks aside, and is no numeral. -/
theorem coarsePartOfSpeech_eq_n_iff {pos : String} :
    coarsePartOfSpeech pos = "n" ↔
      (trim pos.toList).head? = some 'n' ∧ trim pos.toList ≠ "num".toList := by
  rw [coarsePartOfSpeech]
  split
  · next hnoun => exact ⟨fun _ ↦ hnoun, fun _ ↦ rfl⟩
  · next hnoun =>
    refine ⟨fun heq ↦ ?_, fun h ↦ absurd h hnoun⟩
    have htag : trim pos.toList = ['n'] := by
      have := congrArg String.toList heq
      rwa [String.toList_ofList] at this
    rw [htag]
    decide

/-- The noun tags are the known parts of speech that count as nouns. -/
theorem mem_nounTags_iff {partsOfSpeech : StringSet} {pos : String}
    (htrim : trimString pos = pos) :
    pos ∈ nounTags partsOfSpeech ↔
      pos ∈ partsOfSpeech.toList ∧ coarsePartOfSpeech pos = "n" := by
  have htag : trim pos.toList = pos.toList := by
    rw [trimString, onString] at htrim
    have := congrArg String.toList htrim
    rwa [String.toList_ofList] at this
  rw [nounTags, List.mem_filter, coarsePartOfSpeech_eq_n_iff, htag, Bool.and_eq_true, beq_iff_eq,
    bne_iff_ne, Ne, Ne, String.toList_inj]

namespace GrammarItem

/-- The slots of an item that is written for a part of speech. -/
def slotsFor (pos : String) : GrammarItem → List AffixSlot
  | word _ => []
  | table s => if s.partOfSpeech = pos then s.slots else []

variable {nounTags : List String} {pos : String}

/-- A noun tag has the slots that are written for `n`. -/
theorem slotsFor_sublist (hpos : pos ∈ nounTags) (item : GrammarItem) :
    (item.slotsFor "n").Sublist (item.slotsOf nounTags pos) := by
  cases item with
  | word cell => exact List.Sublist.refl _
  | table s =>
    rw [slotsFor, slotsOf]
    split
    · next hn =>
      rw [GrammarTables.targets, if_pos hn, if_pos hpos]
    · exact List.nil_sublist _

/-- Any other part of speech has the slots that are written for itself, but `n` has none. -/
theorem slotsOf_of_notMem (hpos : pos ∉ nounTags) (item : GrammarItem) :
    item.slotsOf nounTags pos = if pos = "n" then [] else item.slotsFor pos := by
  cases item with
  | word cell => exact (ite_self _).symm
  | table s =>
    rw [slotsOf, slotsFor, GrammarTables.targets]
    by_cases hn : s.partOfSpeech = "n"
    · rw [if_pos hn, if_neg hpos, hn]
      split
      · rfl
      · next hne => rw [if_neg (Ne.symm hne)]
    · rw [if_neg hn]
      simp only [List.mem_singleton]
      by_cases heq : pos = s.partOfSpeech
      · rw [if_pos heq, if_neg (heq ▸ hn), if_pos heq.symm]
      · rw [if_neg heq, if_neg (Ne.symm heq), ite_self]

end GrammarItem

/-! ## The tags of the word list -/

namespace WordList

variable {lines : List String} {tags : StringSet}

theorem trimString_partOfSpeech {line : String} {word : WordNotation}
    (h : WordNotation.read line = .ok word) : trimString word.partOfSpeech = word.partOfSpeech := by
  rw [WordNotation.read] at h
  split at h
  · cases h
  · split at h
    · cases h
    · cases h
      rw [trimString, onString, String.toList_ofList, trim_trim]

/-- The tags are those of the words that the lines are read as. -/
theorem mem_partsOfSpeech_iff (h : partsOfSpeech lines = .ok tags) {pos : String} :
    pos ∈ tags.toList ↔
      ∃ line ∈ lines, ∃ word, WordNotation.read line = .ok word ∧ word.partOfSpeech = pos := by
  rw [partsOfSpeech, bind_eq_ok] at h
  obtain ⟨words, hwords, h⟩ := h
  rw [← pure_eq_ok.1 h, StringSet.mem_toList_ofList, List.mem_map]
  constructor
  · rintro ⟨word, hword, rfl⟩
    obtain ⟨line, hline, hread⟩ := exists_of_mem_mapM hwords word hword
    exact ⟨line, hline, word, hread, rfl⟩
  · rintro ⟨line, hline, word, hread, rfl⟩
    obtain ⟨word', hword', hread'⟩ := exists_mem_of_mapM hwords line hline
    cases hread.symm.trans hread'
    exact ⟨word, hword', rfl⟩

end WordList

/-! ## Where roots come from -/

namespace Blueprint

variable {save : Json} {o : BuildOptions} {s : SaveFile} {b : Blueprint}
  {words entries : List LexiconEntry} {e : LexiconEntry}

/-- Declined forms are no roots. -/
theorem IsForm.isRoot_eq_false (hb : ofSave save o = .ok (s, b)) (he : b.IsForm e) :
    e.isRoot = false := by
  obtain ⟨decliner, _, hdecliner, he⟩ := he
  exact isRoot_of_isProper <| Decliner.forall_label_of_mem_declineEntry hdecliner
    (GrammarTables.isProper_compile (isOf_of_ofSave hb).tables) he

/-- Of the roots that are added to the words, all are derived. -/
theorem mem_words_of_isRoot (hb : ofSave save o = .ok (s, b)) (h : b.collected o = .ok entries)
    (he : e ∈ entries) (hroot : e.isRoot = true) (hderived : e.derived = false) :
    ∃ words, b.words = .ok words ∧ e ∈ words := by
  obtain ⟨words, roots, hwords, hroots⟩ := exists_gathers_of_collected h
  refine ⟨words, hwords, ?_⟩
  rcases hroots.mem_or_isForm e he with he | hform
  · refine (List.mem_append.1 he).resolve_right fun he ↦ ?_
    cases hderive : o.derive with
    | false =>
      rw [hroots.underived hderive] at he
      exact absurd he List.not_mem_nil
    | true =>
      rw [(mem_deriveWords (hroots.derived hderive) e he).1] at hderived
      cases hderived
  · rw [hform.isRoot_eq_false hb] at hroot
    cases hroot

/-- A root that is not derived comes from the word list. -/
theorem mem_listed_of_isRoot (hb : ofSave save o = .ok (s, b)) (h : b.collected o = .ok entries)
    (he : e ∈ entries) (hroot : e.isRoot = true) (hderived : e.derived = false) :
    ∃ line ∈ WordList.listLines s.words, ∃ word, WordNotation.read line = .ok word ∧
      ∃ gloss ∈ word.glosses, e = WordList.rootOf b.speller word gloss := by
  obtain ⟨words, hwords, he⟩ := mem_words_of_isRoot hb h he hroot hderived
  obtain ⟨listed, hlisted, rfl⟩ := words_eq_ok.1 hwords
  rw [(isOf_of_ofSave hb).wordLines] at hlisted
  refine (WordList.mem_entries_iff hlisted).1 ((List.mem_append.1 he).resolve_left fun he ↦ ?_)
  rw [GrammarTables.isRoot_eq_false_of_mem_compile (isOf_of_ofSave hb).tables e he] at hroot
  cases hroot

/-- Its tag is one of those of the word list. -/
theorem partOfSpeech_mem_of_isRoot (hb : ofSave save o = .ok (s, b))
    (h : b.collected o = .ok entries) (he : e ∈ entries) (hroot : e.isRoot = true)
    (hderived : e.derived = false) : e.partOfSpeech ∈ b.partsOfSpeech.toList := by
  obtain ⟨line, hline, word, hread, gloss, _, rfl⟩ :=
    mem_listed_of_isRoot hb h he hroot hderived
  refine (WordList.mem_partsOfSpeech_iff (lists_of_ofSave hb).1).2 ⟨line, hline, word, hread, ?_⟩
  exact (WordList.trimString_partOfSpeech hread).symm

/-! ## The slots of the document -/

/-- The slots compiled from the tables of the grammar that are written for a part of speech. -/
def slotsFor (b : Blueprint) (s : SaveFile) (pos : String) : List AffixSlot :=
  (b.grammarItems s).flatMap (GrammarItem.slotsFor pos)

theorem slotsOf_affixMap (hb : ofSave save o = .ok (s, b)) (pos : String) :
    AffixMap.slotsOf b.tables.affixMap pos
      = (b.grammarItems s).flatMap (GrammarItem.slotsOf (nounTags b.partsOfSpeech) pos) :=
  GrammarTables.slotsOf_compile (isOf_of_ofSave hb).tables pos

/-- A noun tag of the word list has the slots that are written for `n`. -/
theorem slotsFor_n_sublist (hb : ofSave save o = .ok (s, b)) {pos : String}
    (hpos : pos ∈ b.partsOfSpeech.toList) (hnoun : coarsePartOfSpeech pos = "n") :
    (b.slotsFor s "n").Sublist (AffixMap.slotsOf b.tables.affixMap pos) := by
  obtain ⟨line, _, word, hread, rfl⟩ :=
    (WordList.mem_partsOfSpeech_iff (lists_of_ofSave hb).1).1 hpos
  have htag := (mem_nounTags_iff (WordList.trimString_partOfSpeech hread)).2 ⟨hpos, hnoun⟩
  rw [slotsOf_affixMap hb]
  exact List.Sublist.flatMap_right _ fun item _ ↦ GrammarItem.slotsFor_sublist htag item

/-- A part of speech that is not in the word list has the slots that are written for itself. -/
theorem slotsOf_of_notMem (hb : ofSave save o = .ok (s, b)) {pos : String}
    (hpos : pos ∉ b.partsOfSpeech.toList) :
    AffixMap.slotsOf b.tables.affixMap pos = if pos = "n" then [] else b.slotsFor s pos := by
  have htag : pos ∉ nounTags b.partsOfSpeech := fun h ↦ hpos (List.mem_of_mem_filter h)
  rw [slotsOf_affixMap hb, funext (GrammarItem.slotsOf_of_notMem htag)]
  split
  · exact List.flatMap_eq_nil_iff.2 fun _ _ ↦ rfl
  · rfl

end Blueprint

/-- **A noun has the slots of `n` if a word of the word list has its tag.**  So every noun of the
word list has them, and so has every derived noun with a tag from there.  A derived noun with
another tag has the slots of the tables for that very tag, and none if the tag is `n`. -/
theorem buildLanguage_nounSlots (save : Json) (o : BuildOptions) (l : Language)
    (h : buildLanguage save o = .ok l) :
    ∃ s b, Blueprint.ofSave save o = .ok (s, b) ∧
      ∀ e ∈ l.lexicon, e.isRoot = true → coarsePartOfSpeech e.partOfSpeech = "n" →
        (e.derived = false → e.partOfSpeech ∈ l.partsOfSpeech) ∧
        (e.partOfSpeech ∈ l.partsOfSpeech →
          (b.slotsFor s "n").Sublist (AffixMap.slotsOf l.affixMap e.partOfSpeech)) ∧
        (e.partOfSpeech ∉ l.partsOfSpeech → AffixMap.slotsOf l.affixMap e.partOfSpeech
          = if e.partOfSpeech = "n" then [] else b.slotsFor s e.partOfSpeech) := by
  obtain ⟨s, b, entries, hb, hentries, rfl⟩ := buildLanguage_eq_ok.1 h
  refine ⟨s, b, hb, fun e he hroot hnoun ↦ ⟨fun hderived ↦ ?_, fun hpos ↦ ?_, fun hpos ↦ ?_⟩⟩
  · exact Blueprint.partOfSpeech_mem_of_isRoot hb hentries (mem_of_mem_tidied b.order he) hroot
      hderived
  · exact Blueprint.slotsFor_n_sublist hb hpos hnoun
  · exact Blueprint.slotsOf_of_notMem hb hpos

/-- A house, the home that is derived from it with a tag of its own, and the plural of nouns. -/
def genderedSave : Json :=
  SaveFile.ofTexts "house : n = ka" "home : nf = house"
    "TABLE TYPE = affix\npart-of-speech = n\ncols = Plural\nP ~ -i"

/-- The house has a plural and the home has none. -/
theorem slots_genderedSave :
    (buildLanguage genderedSave .default).map (fun l ↦
        ((l.lexicon.map fun e ↦ (e.partOfSpeech, e.isRoot, e.derived)), l.partsOfSpeech,
          AffixMap.slotsOf l.affixMap "nf"))
      = .ok ([("n", true, false), ("nf", true, true)], ["n"], []) ∧
    (Blueprint.ofSave genderedSave .default).map (fun made ↦ made.2.slotsFor made.1 "n")
      = .ok [⟨.back, [⟨"Plural", .plain "i" "i"⟩]⟩] := by
  simp only [buildLanguage, Blueprint.lexicon, LexicalOrder.sortEntries,
    LexicalOrder.sortByKey_eq_insertionSort]
  decide +kernel

/-- The house has the tag of a word of the list, and the home has not. -/
theorem buildLanguage_nounSlots_genderedSave :
    ∃ l s b, buildLanguage genderedSave .default = .ok l ∧
      Blueprint.ofSave genderedSave .default = .ok (s, b) ∧
      (∃ e ∈ l.lexicon, e.derived = false ∧
        (b.slotsFor s "n").Sublist (AffixMap.slotsOf l.affixMap e.partOfSpeech)) ∧
      ∃ e ∈ l.lexicon, e.derived = true ∧
        AffixMap.slotsOf l.affixMap e.partOfSpeech = b.slotsFor s e.partOfSpeech := by
  obtain ⟨l, hl, heq⟩ := map_eq_ok.1 slots_genderedSave.1
  obtain ⟨s, b, hb, hslots⟩ := buildLanguage_nounSlots genderedSave .default l hl
  obtain ⟨hlexicon, heq⟩ := Prod.mk.inj heq
  obtain ⟨htags, _⟩ := Prod.mk.inj heq
  have hentry : ∀ row ∈ [("n", true, false), ("nf", true, true)], ∃ e ∈ l.lexicon,
      (e.partOfSpeech, e.isRoot, e.derived) = row := fun row hrow ↦
    List.mem_map.1 (hlexicon ▸ hrow)
  obtain ⟨house, hhouse, hrow⟩ := hentry _ (List.mem_cons_self ..)
  obtain ⟨home, hhome, hrow'⟩ := hentry _ (List.mem_cons_of_mem _ (List.mem_cons_self ..))
  simp only [Prod.mk.injEq] at hrow hrow'
  obtain ⟨hn, hroot, hderived⟩ := hrow
  obtain ⟨hnf, hroot', hderived'⟩ := hrow'
  refine ⟨l, s, b, hl, hb, ⟨house, hhouse, hderived, ?_⟩, home, hhome, hderived', ?_⟩
  · obtain ⟨hlisted, hsublist, _⟩ := hslots house hhouse hroot (by rw [hn]; decide)
    exact hsublist (hlisted hderived)
  · obtain ⟨_, _, hown⟩ := hslots home hhome hroot' (by rw [hnf]; decide)
    rw [hown (by rw [hnf, htags]; decide), if_neg (by rw [hnf]; decide)]

/-- Not every noun of a lexicon has the slots of `n`. -/
theorem not_forall_noun_slotsFor_n :
    ¬∀ save o l s b, buildLanguage save o = .ok l → o.derive = true →
      Blueprint.ofSave save o = .ok (s, b) → ∀ e ∈ l.lexicon, e.isRoot = true →
        coarsePartOfSpeech e.partOfSpeech = "n" →
          (b.slotsFor s "n").Sublist (AffixMap.slotsOf l.affixMap e.partOfSpeech) := by
  intro hall
  obtain ⟨l, hl, heq⟩ := map_eq_ok.1 slots_genderedSave.1
  obtain ⟨⟨s, b⟩, hb, hplural⟩ := map_eq_ok.1 slots_genderedSave.2
  simp only [Prod.mk.injEq] at heq
  obtain ⟨hlexicon, _, hnone⟩ := heq
  have hrow : ("nf", true, true) ∈ l.lexicon.map fun e ↦ (e.partOfSpeech, e.isRoot, e.derived) := by
    rw [hlexicon]
    decide
  obtain ⟨home, hhome, hrow⟩ := List.mem_map.1 hrow
  simp only [Prod.mk.injEq] at hrow
  obtain ⟨hnf, hroot, _⟩ := hrow
  have hsublist := hall genderedSave .default l s b hl rfl hb home hhome hroot (by rw [hnf]; decide)
  rw [hnf, hnone, hplural] at hsublist
  exact absurd hsublist (by decide)

end Glossopoeia
