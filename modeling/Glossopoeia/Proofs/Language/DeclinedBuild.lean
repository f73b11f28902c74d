import Glossopoeia.Proofs.Language.Upkeep

/-!
# Builds with declension

A lexicon can be declined as it is built or afterwards.  Both ways work with the same compiled
blueprint, since a document keeps all that the blueprint was compiled from, so what they may differ
in is the words that they start from: a build has them as they were collected, and declines derived
roots as they are made; a document has them without repetitions and in order.

Declension does not see that difference.  The values of the forms depend on the values of the words,
so a build with declension is a build without it that is declined afterwards.
-/

set_option autoImplicit false

namespace Glossopoeia

open LexiconEntry Outcome

section Decline

variable {save : Json} {o : BuildOptions}

/-! ## Declining a document -/

/-- The words of a document are declined as the blueprint has it. -/
theorem declinedWords_document {s : SaveFile} {b : Blueprint}
    (hb : Blueprint.ofSave save o = .ok (s, b)) (o' : BuildOptions) (lexicon : List LexiconEntry) :
    (b.document o' s save lexicon).declinedWords
      = (Decliner.ofAffixMap b.tables.affixMap b.speller).map
        (Blueprint.declinedForms · lexicon) := by
  have hspeller : Speller.ofSoundMap (b.document o' s save lexicon).soundMap = .ok b.speller :=
    (Blueprint.isOf_of_ofSave hb).speller
  rw [Language.declinedWords, hspeller]
  show (Decliner.ofAffixMap b.tables.affixMap b.speller).bind _ = _
  cases Decliner.ofAffixMap b.tables.affixMap b.speller <;> rfl

/-- Declining a document that was built without declension: it succeeds if the slots compile, and
adds the forms of all its entries. -/
theorem decline_document_eq_ok {s : SaveFile} {b : Blueprint}
    (hb : Blueprint.ofSave save o = .ok (s, b)) {o' : BuildOptions} {lexicon : List LexiconEntry}
    (hplain : ∀ e ∈ lexicon, e.declined = false) {l : Language} :
    (∃ k, Upkeep.decline.run (b.document o' s save lexicon) = (.ok k, l)) ↔
      ∃ decliner, Decliner.ofAffixMap b.tables.affixMap b.speller = .ok decliner ∧
        l = b.document { o' with decline := true } s save
          (b.tidy (lexicon ++ lexicon.flatMap decliner.declineEntry)) := by
  simp only [Upkeep.run_eq_ok, Upkeep.collected, declinedWords_document hb, map_eq_ok]
  constructor
  · rintro ⟨_, _, ⟨_, ⟨decliner, hdecliner, rfl⟩, rfl⟩, rfl, rfl⟩
    rw [Blueprint.declinedForms_of_forall hplain]
    exact ⟨decliner, hdecliner, rfl⟩
  · rintro ⟨decliner, hdecliner, rfl⟩
    refine ⟨_, _, ⟨_, ⟨decliner, hdecliner, rfl⟩, rfl⟩, rfl, ?_⟩
    rw [Blueprint.declinedForms_of_forall hplain]
    rfl

/-! ## Both ways -/

theorem not_declined_of_mem_tidied {s : SaveFile} {b : Blueprint}
    (hb : Blueprint.ofSave save { o with decline := false } = .ok (s, b))
    {entries : List LexiconEntry} (h : b.collected { o with decline := false } = .ok entries) :
    ∀ e ∈ b.tidy entries, e.declined = false :=
  fun e he ↦ Blueprint.not_declined_of_mem_collected hb rfl h e (mem_of_mem_tidied _ he)

/-- What is built without declension and declined then: the forms are those of the tidied words. -/
theorem build_then_decline_eq_ok {l : Language} :
    (∃ plain k, buildLanguage save { o with decline := false } = .ok plain ∧
      Upkeep.decline.run plain = (.ok k, l)) ↔
      ∃ s b entries decliner, Blueprint.ofSave save o = .ok (s, b) ∧
        b.collected { o with decline := false } = .ok entries ∧
        Decliner.ofAffixMap b.tables.affixMap b.speller = .ok decliner ∧
        l = b.document { o with decline := true } s save
          (b.tidy (b.tidy entries ++ (b.tidy entries).flatMap decliner.declineEntry)) := by
  constructor
  · rintro ⟨plain, k, hplain, hrun⟩
    obtain ⟨s, b, entries, hb, hentries, rfl⟩ := buildLanguage_eq_ok.1 hplain
    obtain ⟨decliner, hdecliner, hl⟩ :=
      (decline_document_eq_ok hb (not_declined_of_mem_tidied hb hentries)).1 ⟨k, hrun⟩
    exact ⟨s, b, entries, decliner, hb, hentries, hdecliner, hl⟩
  · rintro ⟨s, b, entries, decliner, hb, hentries, hdecliner, hl⟩
    obtain ⟨k, hrun⟩ : ∃ k, Upkeep.decline.run
        (b.document { o with decline := false } s save (b.tidy entries)) = (.ok k, l) :=
      (decline_document_eq_ok hb (not_declined_of_mem_tidied hb hentries)).2
        ⟨decliner, hdecliner, hl⟩
    exact ⟨_, k, buildLanguage_eq_ok.2 ⟨s, b, entries, hb, hentries, rfl⟩, hrun⟩

/-- What is built with declension at once. -/
theorem build_declined_eq_ok {l : Language} :
    buildLanguage save { o with decline := true } = .ok l ↔
      ∃ s b entries decliner declined, Blueprint.ofSave save o = .ok (s, b) ∧
        b.collected { o with decline := false } = .ok entries ∧
        Decliner.ofAffixMap b.tables.affixMap b.speller = .ok decliner ∧
        b.collected { o with decline := true } = .ok declined ∧
        l = b.document { o with decline := true } s save (b.tidy declined) := by
  rw [buildLanguage_eq_ok]
  constructor
  · rintro ⟨s, b, declined, hb, hdeclined, rfl⟩
    obtain ⟨decliner, words, roots, hdecliner, hwords, hroots, _⟩ :=
      (Blueprint.collected_declined_eq_ok hb).1 hdeclined
    exact ⟨s, b, words ++ roots, decliner, declined, hb,
      (Blueprint.collected_undeclined_eq_ok rfl).2 ⟨words, hwords, hroots⟩, hdecliner, hdeclined,
      rfl⟩
  · rintro ⟨s, b, _, _, declined, hb, _, _, hdeclined, rfl⟩
    exact ⟨s, b, declined, hb, hdeclined, rfl⟩

/-- Tidying before declension changes nothing: the forms of the words in order and without
repetitions are those of the words as they were collected. -/
theorem sameWords_declined {b : Blueprint} {decliner : Decliner}
    {entries declined : List LexiconEntry}
    (h : ∀ v, v ∈ declined.map value ↔
      v ∈ entries.map value ∨ v ∈ (entries.flatMap decliner.declineEntry).map value) :
    SameWords (b.tidy declined)
      (b.tidy (b.tidy entries ++ (b.tidy entries).flatMap decliner.declineEntry)) := by
  have hwords : ∀ v, v ∈ (b.tidy entries).map value ↔ v ∈ entries.map value :=
    fun v ↦ mem_values_tidied b.order
  refine sameWords_tidied _ _ fun v ↦ ?_
  rw [h, List.map_append, List.mem_append, hwords,
    Blueprint.mem_values_flatMap_declineEntry_congr hwords]

/-- **A build with declension is a build without it, declined afterwards.**  The one succeeds
exactly if the other does, and then the documents have the same words and are otherwise equal. -/
theorem buildLanguage_decline (save : Json) (o : BuildOptions) :
    ((∃ l, buildLanguage save { o with decline := true } = .ok l) ↔
      ∃ plain k l', buildLanguage save { o with decline := false } = .ok plain ∧
        Upkeep.decline.run plain = (.ok k, l')) ∧
    ∀ l plain k l', buildLanguage save { o with decline := true } = .ok l →
      buildLanguage save { o with decline := false } = .ok plain →
      Upkeep.decline.run plain = (.ok k, l') →
        SameWords l.lexicon l'.lexicon ∧ l = { l' with lexicon := l.lexicon } := by
  constructor
  · constructor
    · rintro ⟨l, hl⟩
      obtain ⟨s, b, entries, decliner, _, hb, hentries, hdecliner, _, _⟩ :=
        build_declined_eq_ok.1 hl
      obtain ⟨plain, k, hplain, hrun⟩ := build_then_decline_eq_ok.2
        ⟨s, b, entries, decliner, hb, hentries, hdecliner, rfl⟩
      exact ⟨plain, k, _, hplain, hrun⟩
    · rintro ⟨plain, k, l', hplain, hrun⟩
      obtain ⟨s, b, entries, decliner, hb, hentries, hdecliner, _⟩ :=
        build_then_decline_eq_ok.1 ⟨plain, k, hplain, hrun⟩
      obtain ⟨declined, hdeclined, _⟩ :=
        Blueprint.values_of_collected_declined hb hentries hdecliner
      exact ⟨_, build_declined_eq_ok.2
        ⟨s, b, entries, decliner, declined, hb, hentries, hdecliner, hdeclined, rfl⟩⟩
  · intro l plain k l' hl hplain hrun
    obtain ⟨s, b, entries, decliner, declined, hb, hentries, hdecliner, hdeclined, rfl⟩ :=
      build_declined_eq_ok.1 hl
    obtain ⟨s', b', entries', decliner', hb', hentries', hdecliner', rfl⟩ :=
      build_then_decline_eq_ok.1 ⟨plain, k, hplain, hrun⟩
    rw [hb] at hb'
    cases hb'
    rw [hentries] at hentries'
    cases hentries'
    rw [hdecliner] at hdecliner'
    cases hdecliner'
    obtain ⟨_, hdeclined', hvalues⟩ := Blueprint.values_of_collected_declined hb hentries hdecliner
    rw [hdeclined] at hdeclined'
    cases hdeclined'
    exact ⟨sameWords_declined hvalues, rfl⟩

theorem buildLanguage_decline_homeSave :
    ∃ l plain k l', buildLanguage homeSave { BuildOptions.default with decline := true } = .ok l ∧
      buildLanguage homeSave { BuildOptions.default with decline := false } = .ok plain ∧
      Upkeep.decline.run plain = (.ok k, l') ∧
      SameWords l.lexicon l'.lexicon ∧ l = { l' with lexicon := l.lexicon } := by
  have hok : (buildLanguage homeSave { BuildOptions.default with decline := true }).isOk = true :=
    by decide
  obtain ⟨l, hl⟩ := exists_eq_ok_of_isOk hok
  obtain ⟨plain, k, l', hplain, hrun⟩ := (buildLanguage_decline homeSave .default).1.1 ⟨l, hl⟩
  exact ⟨l, plain, k, l', hl, hplain, hrun,
    (buildLanguage_decline homeSave .default).2 l plain k l' hl hplain hrun⟩

end Decline

end Glossopoeia
