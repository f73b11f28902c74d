import Glossopoeia.Proofs.Declension.Slots
import Glossopoeia.Proofs.Language.Upkeep

/-!
# Builds with the derived words removed again

The derived words of a build, with their forms, are told from the others by a flag, and can be
removed again.  What is left is a build without derivation, but for one thing: of entries with the
same value a lexicon keeps the first, and the forms of derived roots come before the forms of the
words.  A form that a word and a derived root have in common is kept as a form of the root, and goes
with it.

`filter_collected` says that the entries which are not derived are collected in the same order with
and without derivation.  The rest is `filter_dedupFrom`: deduplication takes from them exactly what
a derived entry took first.  Words come before everything else, so none of them is lost, and a
derived root itself takes nothing, since no form is labelled as roots are.
-/

set_option autoImplicit false

namespace Glossopoeia

open LexiconEntry Outcome

/-! ## The labels of derived roots -/

theorem Deriver.declensions_of_mem_deriveFrom {d : Deriver} {index : WordIndex}
    {rules : List String} {roots : List LexiconEntry} (h : d.deriveFrom index rules = .ok roots) :
    ∀ e ∈ roots, e.declensions = [rootLabel] := by
  induction rules generalizing index roots with
  | nil =>
    cases h
    exact fun _ he ↦ absurd he List.not_mem_nil
  | cons raw rest ih =>
    obtain ⟨first, others, hfirst, hothers, rfl⟩ := deriveFrom_cons_eq_ok.1 h
    intro e he
    rcases List.mem_append.1 he with he | he
    · rcases deriveLine_eq_ok.1 hfirst with ⟨_, rfl⟩ | ⟨rule, form, _, _, _, _, rfl⟩
      · exact absurd he List.not_mem_nil
      · obtain ⟨gloss, _, rfl⟩ := List.mem_map.1 he
        rfl
    · exact ih hothers e he

namespace Blueprint

variable {save : Json} {o : BuildOptions} {s : SaveFile} {b : Blueprint}
  {words roots entries : List LexiconEntry}

/-- Derived roots are labelled as roots are. -/
theorem isRoot_of_rootsFrom (h : b.rootsFrom words = .ok roots) :
    ∀ e ∈ roots, e.derived = true ∧ e.declensionKey = rootLabel := by
  obtain ⟨d, _, hd⟩ := deriveWords_false_eq_ok.1 h
  refine fun e he ↦ ⟨(mem_deriveWords h e he).1, ?_⟩
  rw [declensionKey, Deriver.declensions_of_mem_deriveFrom hd e he]
  rfl

/-- Declined forms are not. -/
theorem declensionKey_of_mem_forms (hb : ofSave save o = .ok (s, b)) {decliner : Decliner}
    (hdecliner : Decliner.ofAffixMap b.tables.affixMap b.speller = .ok decliner) {f : LexiconEntry}
    (hf : f ∈ words.flatMap decliner.declineEntry) :
    f.declined = true ∧ f.declensionKey ≠ rootLabel := by
  obtain ⟨e, _, hf⟩ := List.mem_flatMap.1 hf
  have hmap := GrammarTables.isProper_compile (isOf_of_ofSave hb).tables
  exact ⟨(Decliner.provenance_of_mem_declineEntry hf).2,
    declensionKey_ne_rootLabel (Decliner.forall_label_of_mem_declineEntry hdecliner hmap hf)⟩

/-! ## What is collected with and without derivation -/

theorem filter_of_derived (h : ∀ e ∈ entries, e.derived = true) :
    entries.filter (fun e ↦ !e.derived) = [] := by
  rw [List.filter_eq_nil_iff]
  intro e he
  rw [h e he, Bool.not_true]
  exact Bool.false_ne_true

/-- The forms of words that are not derived are not derived either. -/
theorem filter_flatMap_declineEntry {decliner : Decliner} (h : ∀ e ∈ words, e.derived = false) :
    (words.flatMap decliner.declineEntry).filter (fun e ↦ !e.derived)
      = words.flatMap decliner.declineEntry := by
  rw [List.filter_eq_self]
  intro f hf
  obtain ⟨e, he, hf⟩ := List.mem_flatMap.1 hf
  rw [(Decliner.provenance_of_mem_declineEntry hf).1, h e he, Bool.not_false]

/-- An entry other than the words of the tables and the list: a derived root, or a form, and the
labels tell which. -/
def IsAdded (e : LexiconEntry) : Prop :=
  e.derived = true ∧ e.declensionKey = rootLabel ∨ e.declined = true ∧ e.declensionKey ≠ rootLabel

/-- **A build with derivation collects what a build without it does, in the same order**, and
derived entries in between, all after the words. -/
theorem exists_added_of_collected (hb : ofSave save o = .ok (s, b))
    (h : b.collected { o with derive := true } = .ok entries) :
    ∃ words added, b.words = .ok words ∧ entries = words ++ added ∧ (∀ e ∈ added, IsAdded e) ∧
      b.collected { o with derive := false } = .ok (words ++ added.filter fun e ↦ !e.derived) := by
  cases hdecline : o.decline with
  | false =>
    obtain ⟨words, roots, hwords, hroots, rfl⟩ := (collected_derived_eq_ok hdecline).1 h
    have hderived := isRoot_of_rootsFrom hroots
    refine ⟨words, roots, hwords, rfl, fun e he ↦ .inl (hderived e he), ?_⟩
    rw [filter_of_derived fun e he ↦ (hderived e he).1, List.append_nil]
    exact (collected_plain_eq_ok (o := { o with decline := false }) rfl).2 hwords
  | true =>
    rw [hdecline] at h
    obtain ⟨decliner, words, roots, hdecliner, hwords, hall, rfl⟩ :=
      (collected_declined_eq_ok (o := { o with derive := true }) hb).1 h
    obtain ⟨_, hroots, heq⟩ :=
      (withDerived_eq_ok (o := { o with derive := true, decline := false }) rfl).1 hall
    cases List.append_cancel_left heq
    have hderived := isRoot_of_rootsFrom hroots
    have hforms : ∀ list : List LexiconEntry, ∀ e ∈ list.flatMap decliner.declineEntry, IsAdded e :=
      fun _ _ he ↦ .inr (declensionKey_of_mem_forms hb hdecliner he)
    refine ⟨words, withFamilies decliner roots ++ (words ++ roots).flatMap decliner.declineEntry,
      hwords, List.append_assoc .., fun e he ↦ ?_, ?_⟩
    · rcases List.mem_append.1 he with he | he
      · obtain ⟨r, hr, rfl | he⟩ := mem_withFamilies.1 he
        · exact .inl (hderived e hr)
        · exact hforms roots e (List.mem_flatMap.2 ⟨r, hr, he⟩)
      · exact hforms _ e he
    · have hfamilies : ∀ e ∈ withFamilies decliner roots, e.derived = true := by
        intro e he
        obtain ⟨r, hr, rfl | he⟩ := mem_withFamilies.1 he
        · exact (hderived e hr).1
        · rw [(Decliner.provenance_of_mem_declineEntry he).1, (hderived r hr).1]
      have hagain : ∀ e ∈ roots.flatMap decliner.declineEntry, e.derived = true := by
        intro e he
        obtain ⟨r, hr, he⟩ := List.mem_flatMap.1 he
        rw [(Decliner.provenance_of_mem_declineEntry he).1, (hderived r hr).1]
      rw [List.filter_append, filter_of_derived hfamilies, List.nil_append, List.flatMap_append,
        List.filter_append, filter_of_derived hagain, List.append_nil, filter_flatMap_declineEntry
          fun e he ↦ (isBasic_of_mem_words hb hwords e he).not_derived]
      refine collected_eq_ok.2 ⟨words, words, hwords, withDerived_of_false rfl, ?_⟩
      refine (withDeclined_eq_ok rfl).2 ⟨decliner, hdecliner, ?_⟩
      rw [declinedForms_of_forall fun e he ↦ (isBasic_of_mem_words hb hwords e he).not_declined]

end Blueprint

/-! ## The derived words removed -/

/-- What is left of a tidy lexicon has nothing to tidy either. -/
theorem Language.IsTidy.tidy_filter {l : Language} (h : l.IsTidy) (p : LexiconEntry → Bool) :
    l.tidy (l.lexicon.filter p) = l.lexicon.filter p := by
  have hkept : Language.IsTidy { l with lexicon := l.lexicon.filter p } :=
    ⟨h.distinct.filter p, h.ordered.filter p⟩
  exact hkept.tidy_lexicon

/-- Has a derived entry of the lexicon the value of the entry? -/
def LexiconEntry.isTakenIn (e : LexiconEntry) (lexicon : List LexiconEntry) : Bool :=
  lexicon.any fun d ↦ d.derived && d.sameValue e

theorem LexiconEntry.isTakenIn_iff {e : LexiconEntry} {lexicon : List LexiconEntry} :
    e.isTakenIn lexicon = true ↔ ∃ d ∈ lexicon, d.derived = true ∧ d.value = e.value := by
  simp only [isTakenIn, List.any_eq_true, Bool.and_eq_true, sameValue_iff]

/-- What is not derived in a tidied list. -/
theorem filter_tidied (order : LexicalOrder) (entries : List LexiconEntry) :
    (order.sortEntries (dedupLexicon entries)).filter (fun e ↦ !e.derived)
      = (order.sortEntries (dedupLexicon (entries.filter fun e ↦ !e.derived))).filter
        fun e ↦ !e.isTakenIn (order.sortEntries (dedupLexicon entries)) := by
  have hany : ∀ e : LexiconEntry, e.isTakenIn (order.sortEntries (dedupLexicon entries))
      = (dedupLexicon entries).any fun d ↦ !(!d.derived) && d.sameValue e := by
    intro e
    simp only [Bool.not_not]
    exact (LexicalOrder.perm_sortEntries order _).any_eq
  simp only [hany]
  rw [LexicalOrder.filter_sortEntries, LexicalOrder.filter_sortEntries, dedupLexicon, dedupLexicon,
    filter_dedupFrom]

/-- Of the entries of a lexicon that is built without derivation, a derived entry takes forms at
most, and only a form takes a form. -/
theorem declined_of_isTakenIn (order : LexicalOrder) {words added : List LexiconEntry}
    (hwords : ∀ e ∈ words, e.derived = false) (hadded : ∀ e ∈ added, Blueprint.IsAdded e)
    {e d : LexiconEntry} (he : e ∈ words ++ added.filter fun e ↦ !e.derived)
    (hd : d ∈ order.sortEntries (dedupLexicon (words ++ added))) (hderived : d.derived = true)
    (hvalue : d.value = e.value) : e.declined = true ∧ d.declined = true := by
  rw [LexicalOrder.mem_sortEntries] at hd
  have hnew : d ∉ words := by
    intro hold
    rw [hwords d hold] at hderived
    cases hderived
  have he : e ∈ added.filter fun e ↦ !e.derived := by
    refine (List.mem_append.1 he).resolve_left fun hword ↦ hnew ?_
    exact mem_of_mem_dedupLexicon_append hd (hvalue ▸ List.mem_map_of_mem hword)
  have hd : d ∈ added := (List.mem_append.1 (mem_of_mem_dedupLexicon hd)).resolve_left hnew
  obtain ⟨hmem, hplain⟩ := List.mem_filter.1 he
  have hkey : d.declensionKey = e.declensionKey := congrArg Value.declensionKey hvalue
  rcases hadded e hmem with ⟨hroot, _⟩ | ⟨hdeclined, hform⟩
  · rw [hroot] at hplain
    cases hplain
  · rcases hadded d hd with ⟨_, hroot⟩ | ⟨hdeclined', _⟩
    · exact absurd (hkey.symm.trans hroot) hform
    · exact ⟨hdeclined, hdeclined'⟩

/-- **A build with derivation, rid of its derived entries, is a build without it less the forms that
a derived root has as well.**  The entries that go are those that say that they are derived, and the
entries that stay are the same, in the same places.  Only forms are missing, none if nothing is
declined. -/
theorem removeDerived_buildLanguage (save : Json) (o : BuildOptions) (l : Language)
    (hl : buildLanguage save { o with derive := true } = .ok l) :
    ∃ plain l', buildLanguage save { o with derive := false } = .ok plain ∧
      Upkeep.removeDerived.run l = (.ok (l.lexicon.filter (·.derived)).length, l') ∧
      l'.lexicon = l.lexicon.filter (fun e ↦ !e.derived) ∧
      l' = { plain with lexicon := plain.lexicon.filter fun e ↦ !e.isTakenIn l.lexicon } ∧
      (∀ e ∈ plain.lexicon, ∀ d ∈ l.lexicon, d.derived = true → d.sameValue e = true →
        e.declined = true ∧ d.declined = true) ∧
      (o.decline = false → l' = plain) := by
  have htidy : l.IsTidy := Language.isTidy_of_buildLanguage hl
  obtain ⟨s, b, entries, hb, hentries, rfl⟩ := buildLanguage_eq_ok.1 hl
  obtain ⟨words, added, hwords, rfl, hadded, hplain⟩ :=
    Blueprint.exists_added_of_collected (o := o) hb hentries
  have hunderived : ∀ e ∈ words, e.derived = false :=
    fun e he ↦ (Blueprint.isBasic_of_mem_words hb hwords e he).not_derived
  have hkept : (words ++ added).filter (fun e ↦ !e.derived)
      = words ++ added.filter fun e ↦ !e.derived := by
    rw [List.filter_append, List.filter_eq_self.2]
    intro e he
    rw [hunderived e he, Bool.not_false]
  have hfilter := filter_tidied b.order (words ++ added)
  rw [hkept] at hfilter
  have hforms : ∀ e ∈ b.tidy (words ++ added.filter fun e ↦ !e.derived),
      ∀ d ∈ b.tidy (words ++ added), d.derived = true → d.sameValue e = true →
        e.declined = true ∧ d.declined = true := fun e he d hd hderived hsame ↦
    declined_of_isTakenIn b.order hunderived hadded (mem_of_mem_tidied b.order he) hd hderived
      (sameValue_iff.1 hsame)
  have hrest := htidy.tidy_filter fun e ↦ !e.derived
  refine ⟨b.document { o with derive := false } s save _, b.document { o with derive := false } s
    save ((b.tidy (words ++ added)).filter fun e ↦ !e.derived),
    buildLanguage_eq_ok.2 ⟨s, b, _, hb, hplain, rfl⟩, Upkeep.run_eq_ok.2 ⟨_, rfl, ?_, ?_⟩, rfl, ?_,
    hforms, fun hdecline ↦ ?_⟩
  · rw [hrest]
    exact (Nat.sub_eq_of_eq_add (List.length_eq_length_filter_add _)).symm
  · rw [hrest]
    rfl
  · exact congrArg (b.document _ s save) hfilter
  · -- Nothing is declined, so nothing is taken.
    refine congrArg (b.document _ s save) (hfilter.trans (List.filter_eq_self.2 fun e he ↦ ?_))
    rw [Bool.not_eq_true', ← Bool.not_eq_true, isTakenIn_iff]
    rintro ⟨d, hd, hderived, hvalue⟩
    have hdeclined := (hforms e he d hd hderived (sameValue_iff.2 hvalue)).1
    rw [Blueprint.not_declined_of_mem_collected (o := { o with derive := false }) hb hdecline hplain
      e (mem_of_mem_tidied b.order he)] at hdeclined
    cases hdeclined

/-- Options for a build with declension, with or without derivation. -/
def BuildOptions.declined (derive : Bool) : BuildOptions :=
  { BuildOptions.default with derive := derive, decline := true }

theorem removeDerived_buildLanguage_homeSave :
    ∃ l plain l', buildLanguage homeSave (.declined true) = .ok l ∧
      buildLanguage homeSave (.declined false) = .ok plain ∧
      Upkeep.removeDerived.run l = (.ok (l.lexicon.filter (·.derived)).length, l') ∧
      l' = { plain with lexicon := plain.lexicon.filter fun e ↦ !e.isTakenIn l.lexicon } := by
  have hok : (buildLanguage homeSave (.declined true)).isOk = true := by
    decide
  obtain ⟨l, hl⟩ := exists_eq_ok_of_isOk hok
  obtain ⟨plain, l', hplain, hrun, _, hl', _⟩ :=
    removeDerived_buildLanguage homeSave (.declined true) l hl
  exact ⟨l, plain, l', hl, hplain, hrun, hl'⟩

/-! ## A form of a word and of a derived root -/

/-- A house, the same house derived once more, and the plural of nouns. -/
def twiceSave : Json :=
  SaveFile.ofTexts "house : n = ka" "house : n = house"
    "TABLE TYPE = affix\npart-of-speech = n\ncols = Plural\nP ~ -i"

/-- The derived house is no entry of its own, but the houses are its form. -/
theorem values_twiceSave :
    (buildLanguage twiceSave (.declined true)).map
        (fun l ↦ (l.lexicon.filter fun e ↦ !e.derived).map value)
      = .ok [⟨"ka", "ka", "house", "n", "root"⟩] ∧
    (buildLanguage twiceSave (.declined false)).map
        (fun plain ↦ plain.lexicon.map value)
      = .ok [⟨"ka", "ka", "house", "n", "root"⟩, ⟨"kai", "kai", "house", "n", "Plural"⟩] := by
  simp only [buildLanguage, Blueprint.lexicon, LexicalOrder.sortEntries,
    LexicalOrder.sortByKey_eq_insertionSort]
  decide +kernel

/-- A form of a word can be lost with the derived words. -/
theorem not_sameWords_removeDerived :
    ∃ l plain k l', buildLanguage twiceSave (.declined true) = .ok l ∧
      buildLanguage twiceSave (.declined false) = .ok plain ∧
      Upkeep.removeDerived.run l = (.ok k, l') ∧
      ∃ e ∈ plain.lexicon, ∀ e' ∈ l'.lexicon, e.sameValue e' = false := by
  obtain ⟨l, hl, hkept⟩ := map_eq_ok.1 values_twiceSave.1
  obtain ⟨plain, hplain, hvalues⟩ := map_eq_ok.1 values_twiceSave.2
  have hform : (⟨"kai", "kai", "house", "n", "Plural"⟩ : Value) ∈ plain.lexicon.map value := by
    rw [hvalues]
    decide
  obtain ⟨e, he, hvalue⟩ := List.mem_map.1 hform
  refine ⟨l, plain, _, _, hl, hplain, rfl, e, he, fun e' he' ↦ ?_⟩
  have hmem : e'.value ∈ (l.lexicon.filter fun e ↦ !e.derived).map value :=
    List.mem_map_of_mem (mem_of_mem_tidied _ he')
  rw [sameValue_eq_false_iff, hvalue]
  intro heq
  rw [hkept, ← heq] at hmem
  exact absurd hmem (by decide)

end Glossopoeia
