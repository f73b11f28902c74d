import Glossopoeia.Proofs.Declension.Slots
import Glossopoeia.Proofs.Language.DeclinedBuild
import Glossopoeia.Proofs.Language.DerivedBuild

/-!
# Declension and derivation in either order

A plain document can be declined and derived in two orders.  Derived after it has been declined, it
brings the forms of each new root with it; declined after it has been derived, it adds the forms of
old and new words together.  The words are the same either way, and this file says why:

* declined forms are no roots, since no table can name a form `root`, and they displace none of the
  words, so the roots of a document and their order are the same after a declension as before it
  (`filter_isRoot_declined`);
* derivations look at roots alone, so they make the same roots, or fail, in either order
  (`rootsFrom_declined`);
* and the values of the forms depend on the values of the words, not on where the words come from.
-/

set_option autoImplicit false

namespace Glossopoeia

open LexiconEntry Outcome

/-! ## Operations one after the other -/

/-- The operations lead from one document to another, and none of them fails. -/
def Upkeep.Leads : List Upkeep → Language → Language → Prop
  | [], l, l' => l' = l
  | op :: ops, l, l' => ∃ k next, op.run l = (.ok k, next) ∧ Leads ops next l'

namespace Upkeep

theorem leads_pair {first second : Upkeep} {l l' : Language} :
    Leads [first, second] l l' ↔
      ∃ next, (∃ k, first.run l = (.ok k, next)) ∧ ∃ k, second.run next = (.ok k, l') := by
  constructor
  · rintro ⟨k, next, hfirst, k', _, hsecond, rfl⟩
    exact ⟨next, ⟨k, hfirst⟩, k', hsecond⟩
  · rintro ⟨next, ⟨k, hfirst⟩, k', hsecond⟩
    exact ⟨k, next, hfirst, k', l', hsecond, rfl⟩

end Upkeep

section Roots

variable {save : Json} {o : BuildOptions} {s : SaveFile} {b : Blueprint} {decliner : Decliner}

/-! ## Roots among declined forms -/

/-- Derivations look at the roots of a lexicon and at nothing else. -/
theorem Blueprint.rootsFrom_congr {words words' : List LexiconEntry}
    (h : words.filter isRoot = words'.filter isRoot) : b.rootsFrom words = b.rootsFrom words' := by
  have hderive : ∀ (d : Deriver) (rules : List String),
      d.derive rules words = d.derive rules words' := by
    intro d rules
    rw [Deriver.derive_eq, Deriver.derive_eq, WordIndex.ofLexicon, WordIndex.ofLexicon, h]
  simp only [rootsFrom, deriveWords, Deriver.deriveEntries_some_eq, hderive]

/-- **A declension leaves the roots of a tidy lexicon alone**, and their order. -/
theorem filter_isRoot_declined (hb : Blueprint.ofSave save o = .ok (s, b))
    (hdecliner : Decliner.ofAffixMap b.tables.affixMap b.speller = .ok decliner)
    {words : List LexiconEntry} (hplain : ∀ e ∈ words, e.declined = false) :
    (b.tidy (words ++ words.flatMap decliner.declineEntry)).filter isRoot
      = (b.tidy words).filter isRoot := by
  have hforms : ∀ f ∈ words.flatMap decliner.declineEntry,
      f.isRoot = false ∧ f.declined = true := by
    intro f hf
    obtain ⟨e, _, hf⟩ := List.mem_flatMap.1 hf
    have hmap := GrammarTables.isProper_compile (Blueprint.isOf_of_ofSave hb).tables
    exact ⟨isRoot_of_isProper (Decliner.forall_label_of_mem_declineEntry hdecliner hmap hf),
      (Decliner.provenance_of_mem_declineEntry hf).2⟩
  have hkept : (b.tidy (words ++ words.flatMap decliner.declineEntry)).filter (fun e ↦ !e.declined)
      = b.tidy words := by
    refine filter_tidied_append b.order (fun e he ↦ ?_) fun f hf ↦ ?_
    · rw [hplain e he, Bool.not_false]
    · rw [(hforms f hf).2, Bool.not_true]
  rw [← hkept, List.filter_filter]
  refine List.filter_congr fun e he ↦ ?_
  rcases List.mem_append.1 (mem_of_mem_tidied b.order he) with he | he
  · rw [hplain e he, Bool.not_false, Bool.and_true]
  · rw [(hforms e he).1, Bool.false_and]

/-- Derivations make the same of a tidy lexicon before and after a declension. -/
theorem rootsFrom_declined (hb : Blueprint.ofSave save o = .ok (s, b))
    (hdecliner : Decliner.ofAffixMap b.tables.affixMap b.speller = .ok decliner)
    {words : List LexiconEntry} (hplain : ∀ e ∈ words, e.declined = false)
    (htidy : b.tidy words = words) :
    b.rootsFrom (b.tidy (words ++ words.flatMap decliner.declineEntry)) = b.rootsFrom words := by
  refine Blueprint.rootsFrom_congr ?_
  rw [filter_isRoot_declined hb hdecliner hplain, htidy]

/-- Deriving the words of a declined document: its derivations and its slots compile, and the roots
come with their forms. -/
theorem derive_declined_document_eq_ok (hb : Blueprint.ofSave save o = .ok (s, b))
    {o' : BuildOptions} (hdecline : o'.decline = true) (lexicon : List LexiconEntry)
    {l : Language} :
    (∃ k, Upkeep.derive.run (b.document o' s save lexicon) = (.ok k, l)) ↔
      ∃ decliner roots, Decliner.ofAffixMap b.tables.affixMap b.speller = .ok decliner ∧
        b.rootsFrom lexicon = .ok roots ∧
        l = b.document { o' with derive := true } s save
          (b.tidy (lexicon ++ withFamilies decliner roots)) := by
  have hspeller : Speller.ofSoundMap (b.document o' s save lexicon).soundMap = .ok b.speller :=
    (Blueprint.isOf_of_ofSave hb).speller
  have hfamilies : (b.document o' s save lexicon).derivedFamilies
      = deriveWords b.derivedLines b.derivationalAffixes lexicon b.tables.affixMap b.speller
        true := by
    rw [Language.derivedFamilies, hspeller, ← hdecline]
    rfl
  simp only [Upkeep.run_eq_ok, Upkeep.collected, hfamilies, map_eq_ok, deriveWords_true_eq_ok]
  constructor
  · rintro ⟨_, _, ⟨_, ⟨decliner, roots, hdecliner, hroots, rfl⟩, rfl⟩, rfl, rfl⟩
    exact ⟨decliner, roots, hdecliner, hroots, rfl⟩
  · rintro ⟨decliner, roots, hdecliner, hroots, rfl⟩
    exact ⟨_, _, ⟨_, ⟨decliner, roots, hdecliner, hroots, rfl⟩, rfl⟩, rfl, rfl⟩

end Roots

/-! ## Both orders -/

section Orders

variable {save : Json} {o : BuildOptions} {s : SaveFile} {b : Blueprint}
  {words : List LexiconEntry} {l : Language}

theorem leads_decline_derive (hb : Blueprint.ofSave save o = .ok (s, b))
    (hplain : ∀ e ∈ words, e.declined = false) (htidy : b.tidy words = words) :
    Upkeep.Leads [.decline, .derive] (b.document o s save words) l ↔
      ∃ decliner roots, Decliner.ofAffixMap b.tables.affixMap b.speller = .ok decliner ∧
        b.rootsFrom words = .ok roots ∧
        l = b.document { o with derive := true, decline := true } s save
          (b.tidy (b.tidy (words ++ words.flatMap decliner.declineEntry)
            ++ withFamilies decliner roots)) := by
  simp only [Upkeep.leads_pair, decline_document_eq_ok hb hplain]
  constructor
  · rintro ⟨_, ⟨decliner, hdecliner, rfl⟩, hderive⟩
    obtain ⟨decliner', roots, hdecliner', hroots, rfl⟩ :=
      (derive_declined_document_eq_ok hb rfl _).1 hderive
    cases hdecliner.symm.trans hdecliner'
    rw [rootsFrom_declined hb hdecliner hplain htidy] at hroots
    exact ⟨decliner, roots, hdecliner, hroots, rfl⟩
  · rintro ⟨decliner, roots, hdecliner, hroots, rfl⟩
    rw [← rootsFrom_declined hb hdecliner hplain htidy] at hroots
    exact ⟨_, ⟨decliner, hdecliner, rfl⟩,
      (derive_declined_document_eq_ok hb rfl _).2 ⟨decliner, roots, hdecliner, hroots, rfl⟩⟩

theorem leads_derive_decline (hb : Blueprint.ofSave save o = .ok (s, b))
    (hdecline : o.decline = false) (hplain : ∀ e ∈ words, e.declined = false) :
    Upkeep.Leads [.derive, .decline] (b.document o s save words) l ↔
      ∃ decliner roots, Decliner.ofAffixMap b.tables.affixMap b.speller = .ok decliner ∧
        b.rootsFrom words = .ok roots ∧
        l = b.document { o with derive := true, decline := true } s save
          (b.tidy (b.tidy (words ++ roots)
            ++ (b.tidy (words ++ roots)).flatMap decliner.declineEntry)) := by
  have hundeclined : ∀ roots, b.rootsFrom words = .ok roots →
      ∀ e ∈ b.tidy (words ++ roots), e.declined = false := by
    intro roots hroots e he
    rcases List.mem_append.1 (mem_of_mem_tidied b.order he) with he | he
    · exact hplain e he
    · exact (mem_deriveWords hroots e he).2
  simp only [Upkeep.leads_pair, derive_document_eq_ok hb o hdecline]
  constructor
  · rintro ⟨_, ⟨roots, hroots, rfl⟩, hrun⟩
    obtain ⟨decliner, hdecliner, rfl⟩ :=
      (decline_document_eq_ok hb (hundeclined roots hroots)).1 hrun
    exact ⟨decliner, roots, hdecliner, hroots, rfl⟩
  · rintro ⟨decliner, roots, hdecliner, hroots, rfl⟩
    exact ⟨_, ⟨roots, hroots, rfl⟩,
      (decline_document_eq_ok hb (hundeclined roots hroots)).2 ⟨decliner, hdecliner, rfl⟩⟩

/-- In either order the words are those there were, the new roots, and the forms of both. -/
theorem sameWords_orders (decliner : Decliner) (roots : List LexiconEntry) :
    SameWords
      (b.tidy (b.tidy (words ++ words.flatMap decliner.declineEntry)
        ++ withFamilies decliner roots))
      (b.tidy (b.tidy (words ++ roots)
        ++ (b.tidy (words ++ roots)).flatMap decliner.declineEntry)) := by
  have htidied : ∀ v, v ∈ (b.tidy (words ++ roots)).map value ↔ v ∈ (words ++ roots).map value :=
    fun v ↦ mem_values_tidied b.order
  refine sameWords_tidied _ _ fun v ↦ ?_
  simp only [List.map_append, List.mem_append, mem_values_tidied, mem_values_withFamilies,
    Blueprint.mem_values_flatMap_declineEntry_congr htidied, List.flatMap_append]
  tauto

end Orders

/-- **Declension and derivation commute.**  On a document that was built without declension, either
order succeeds if the other does; then both results say that they are declined and derived, have the
same words and are otherwise equal. -/
theorem decline_derive_comm (save : Json) (o : BuildOptions) (hdecline : o.decline = false)
    (plain : Language) (hplain : buildLanguage save o = .ok plain) :
    ((∃ l, Upkeep.Leads [.decline, .derive] plain l) ↔
      ∃ l', Upkeep.Leads [.derive, .decline] plain l') ∧
    ∀ l l', Upkeep.Leads [.decline, .derive] plain l → Upkeep.Leads [.derive, .decline] plain l' →
      (l.declined = true ∧ l.derived = true) ∧ (l'.declined = true ∧ l'.derived = true) ∧
        SameWords l.lexicon l'.lexicon ∧ l = { l' with lexicon := l.lexicon } := by
  obtain ⟨s, b, entries, hb, hentries, rfl⟩ := buildLanguage_eq_ok.1 hplain
  have hundeclined : ∀ e ∈ b.tidy entries, e.declined = false := fun e he ↦
    Blueprint.not_declined_of_mem_collected hb hdecline hentries e (mem_of_mem_tidied b.order he)
  simp only [leads_decline_derive hb hundeclined (tidied_tidied b.order entries),
    leads_derive_decline hb hdecline hundeclined]
  constructor
  · constructor
    · rintro ⟨_, decliner, roots, hdecliner, hroots, _⟩
      exact ⟨_, decliner, roots, hdecliner, hroots, rfl⟩
    · rintro ⟨_, decliner, roots, hdecliner, hroots, _⟩
      exact ⟨_, decliner, roots, hdecliner, hroots, rfl⟩
  · rintro l l' ⟨decliner, roots, hdecliner, hroots, rfl⟩
      ⟨decliner', roots', hdecliner', hroots', rfl⟩
    cases hdecliner.symm.trans hdecliner'
    cases hroots.symm.trans hroots'
    exact ⟨⟨rfl, rfl⟩, ⟨rfl, rfl⟩, sameWords_orders decliner roots, rfl⟩

theorem decline_derive_comm_homeSave :
    ∃ plain l l',
      buildLanguage homeSave { BuildOptions.default with derive := false } = .ok plain ∧
      Upkeep.Leads [.decline, .derive] plain l ∧ Upkeep.Leads [.derive, .decline] plain l' ∧
      SameWords l.lexicon l'.lexicon ∧ l = { l' with lexicon := l.lexicon } := by
  have hoks : (buildLanguage homeSave { BuildOptions.default with derive := false }).map
      (fun plain ↦ ((Upkeep.derive.run plain).1.isOk,
        (Upkeep.decline.run (Upkeep.derive.run plain).2).1.isOk)) = .ok (true, true) := by
    simp only [buildLanguage, Blueprint.lexicon, LexicalOrder.sortEntries,
      LexicalOrder.sortByKey_eq_insertionSort]
    decide
  obtain ⟨plain, hplain, hruns⟩ := map_eq_ok.1 hoks
  obtain ⟨hderive, hdecline⟩ := Prod.mk.inj hruns
  obtain ⟨n, hn⟩ := exists_eq_ok_of_isOk hderive
  obtain ⟨k, hk⟩ := exists_eq_ok_of_isOk hdecline
  have hl' : Upkeep.Leads [.derive, .decline] plain
      (Upkeep.decline.run (Upkeep.derive.run plain).2).2 :=
    Upkeep.leads_pair.2 ⟨_, ⟨n, Prod.ext hn rfl⟩, k, Prod.ext hk rfl⟩
  obtain ⟨hiff, hsame⟩ := decline_derive_comm homeSave _ rfl plain hplain
  obtain ⟨l, hl⟩ := hiff.2 ⟨_, hl'⟩
  exact ⟨plain, l, _, hplain, hl, hl', (hsame l _ hl hl').2.2⟩

end Glossopoeia
