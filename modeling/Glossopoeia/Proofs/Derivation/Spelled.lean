import Glossopoeia.Proofs.Affix.Solid
import Glossopoeia.Proofs.Declension.Slots
import Glossopoeia.Proofs.Derivation.Roots
import Glossopoeia.Proofs.Lexicon.Spelled

/-!
# The spelling of forms and roots

Declined forms and derived roots are spelled as they are made, so they are spelled as they sound if
no blank comes into them.  A form is made of a word by the rules of slots, and a root of other roots
by derivational affixes; both are solid if the words are and the rules keep texts solid.  The roots
that derivations look up are those of the lexicon and those that the lines before have made, which
is why the induction over the lines is on a lexicon that grows (`isSpelled_deriveFrom`).
-/

set_option autoImplicit false

namespace Glossopoeia

open LexiconEntry Outcome Text

/-- Whatever slots put to words keeps them solid.  Particles are not put to words. -/
def AffixMap.KeepsSolid (map : AffixMap) : Prop :=
  map.Holds fun kind rule ↦ kind ≠ .particle → rule.affix.KeepsSolid

/-- Every derivational affix keeps words solid. -/
def DerivationalAffixMap.KeepsSolid (affixes : DerivationalAffixMap) : Prop :=
  ∀ a ∈ affixes.values, a.rule.KeepsSolid

/-! ## Forms -/

theorem Variant.solid_unstressed {form : List Char} (h : Solid form) :
    Solid (unstressed form) := by
  cases form with
  | nil => exact h
  | cons c rest =>
    rw [unstressed]
    split
    · exact (List.forall_mem_cons.1 h).2
    · exact h

section Forms

variable {map : AffixMap} {speller : Speller} {decliner : Decliner}

/-- **The forms of a spelled word are spelled.** -/
theorem Decliner.isSpelled_of_mem_declineEntry
    (hdecliner : Decliner.ofAffixMap map speller = .ok decliner) (hmap : map.KeepsSolid)
    {e f : LexiconEntry} (he : e.IsSpelled speller) (hf : f ∈ decliner.declineEntry e) :
    f.IsSpelled speller := by
  have hrules : ∀ slot ∈ decliner.slotsOf e.partOfSpeech, slot.kind ≠ .particle →
      ∀ r ∈ slot.rules, r.Keeps (fun form _ ↦ Solid form) slot := by
    intro slot hslot hkind r hr form _ hform
    obtain ⟨slots, hslots, source, hsource, hsame, rule, hrule, -, htransform⟩ :=
      exists_rule_of_mem_slotsOf hdecliner hslot hr
    have hkeeps := hmap slots hslots source hsource rule hrule (hsame ▸ hkind)
    exact Transform.solid_apply hkeeps htransform slot.position hform
      (Variant.solid_unstressed hform)
  obtain ⟨v, hv, hf⟩ := exists_variant_of_mem_declineRoot hrules he.solid hf
  obtain ⟨gloss, _, rfl⟩ := List.mem_map.1 hf
  rw [speller_of_ofAffixMap hdecliner]
  refine isSpelled_new ?_ rfl rfl
  rw [String.toList_ofList]
  exact hv

theorem Blueprint.isSpelled_of_mem_declinedForms
    (hdecliner : Decliner.ofAffixMap map speller = .ok decliner) (hmap : map.KeepsSolid)
    {entries : List LexiconEntry} (h : ∀ e ∈ entries, e.IsSpelled speller) :
    ∀ f ∈ declinedForms decliner entries, f.IsSpelled speller := by
  intro f hf
  obtain ⟨e, he, hf⟩ := List.mem_flatMap.1 hf
  exact Decliner.isSpelled_of_mem_declineEntry hdecliner hmap (h e (List.mem_filter.1 he).1) hf

end Forms

/-! ## Roots -/

namespace Deriver

variable {affixes : DerivationalAffixMap} {speller : Speller} {d : Deriver}

/-- The compiled affixes are those of the document. -/
theorem exists_rule_of_ofAffixes (hd : ofAffixes affixes speller = .ok d) {a : CompiledAffix}
    (ha : a ∈ d.affixes.values) :
    ∃ source ∈ affixes.values, Transform.ofRule source.rule = .ok a.transform := by
  rw [ofAffixes, bind_eq_ok] at hd
  obtain ⟨entries, hentries, hd⟩ := hd
  rw [← pure_eq_ok.1 hd] at ha
  obtain ⟨tag, htag⟩ := Dictionary.mem_values_ofList ha
  obtain ⟨source, hsource, hcompiled⟩ := exists_of_mem_mapM hentries _ htag
  obtain ⟨compiled, hcompiled, heq⟩ := bind_eq_ok.1 hcompiled
  obtain ⟨t, ht, hcompiled⟩ := bind_eq_ok.1 hcompiled
  cases pure_eq_ok.1 heq
  cases pure_eq_ok.1 hcompiled
  exact ⟨source.2, Dictionary.mem_values_iff.2 ⟨source.1, hsource⟩, ht⟩

theorem speller_of_ofAffixes (hd : ofAffixes affixes speller = .ok d) : d.speller = speller := by
  rw [ofAffixes, bind_eq_ok] at hd
  obtain ⟨entries, _, hd⟩ := hd
  rw [← pure_eq_ok.1 hd]

/-- A part contributes a root of the lexicon, as it is or with an affix put to it. -/
theorem exists_root_of_partForm {lexicon : List LexiconEntry} {part : Component} {form : List Char}
    (h : d.partForm (WordIndex.ofLexicon lexicon) part = .ok form) :
    ∃ root ∈ lexicon, form = root.phonetic.toList ∨ ∃ a ∈ d.affixes.values,
      form = a.transform.apply a.position root.phonetic.toList root.phonetic.toList := by
  have hmem : ∀ {root}, (WordIndex.ofLexicon lexicon).resolve part.word part.partOfSpeech
      = .ok root → root ∈ lexicon := by
    intro root hroot
    rw [WordIndex.resolve] at hroot
    split at hroot
    · next hfound =>
      cases hroot
      exact (WordIndex.mayName_of_lookup? hfound).mem
    · cases hroot
  rw [partForm] at h
  cases haffix : part.affix with
  | none =>
    rw [haffix] at h
    obtain ⟨_, hnone, h⟩ := bind_eq_ok.1 h
    cases pure_eq_ok.1 hnone
    obtain ⟨root, hroot, h⟩ := bind_eq_ok.1 h
    exact ⟨root, hmem hroot, .inl (pure_eq_ok.1 h).symm⟩
  | some tag =>
    rw [haffix] at h
    dsimp only at h
    cases hget : d.affixes.get? tag with
    | none =>
      rw [hget] at h
      cases h
    | some a =>
      rw [hget] at h
      obtain ⟨_, hsome, h⟩ := bind_eq_ok.1 h
      cases pure_eq_ok.1 hsome
      obtain ⟨root, hroot, h⟩ := bind_eq_ok.1 h
      exact ⟨root, hmem hroot, .inr ⟨a, Dictionary.mem_values_of_get? hget,
        (pure_eq_ok.1 h).symm⟩⟩

variable (hd : ofAffixes affixes speller = .ok d) (haffixes : affixes.KeepsSolid)

include hd haffixes

theorem solid_formOf {lexicon : List LexiconEntry} (hlexicon : ∀ e ∈ lexicon, e.IsSpelled speller)
    {parts : List Component} {form : List Char}
    (h : d.formOf (WordIndex.ofLexicon lexicon) parts = .ok form) : Solid form := by
  rw [formOf, bind_eq_ok] at h
  obtain ⟨forms, hforms, h⟩ := h
  rw [← pure_eq_ok.1 h]
  refine solid_flatten fun text htext ↦ ?_
  obtain ⟨part, _, hpart⟩ := exists_of_mem_mapM hforms text htext
  obtain ⟨root, hroot, rfl | ⟨a, ha, rfl⟩⟩ := exists_root_of_partForm hpart
  · exact (hlexicon root hroot).solid
  · obtain ⟨source, hsource, htransform⟩ := exists_rule_of_ofAffixes hd ha
    exact Transform.solid_apply (haffixes source hsource) htransform a.position
      (hlexicon root hroot).solid (hlexicon root hroot).solid

theorem isSpelled_deriveLine {lexicon : List LexiconEntry}
    (hlexicon : ∀ e ∈ lexicon, e.IsSpelled speller) {raw : String} {roots : List LexiconEntry}
    (h : d.deriveLine (WordIndex.ofLexicon lexicon) raw = .ok roots) :
    ∀ e ∈ roots, e.IsSpelled speller := by
  rcases deriveLine_eq_ok.1 h with ⟨_, rfl⟩ | ⟨rule, form, _, _, hform, _, rfl⟩
  · exact fun _ he ↦ absurd he List.not_mem_nil
  · intro e he
    obtain ⟨gloss, _, rfl⟩ := List.mem_map.1 he
    rw [speller_of_ofAffixes hd]
    refine isSpelled_new ?_ rfl rfl
    rw [String.toList_ofList]
    exact solid_formOf hd haffixes hlexicon hform

/-- **The roots made from a spelled lexicon are spelled.** -/
theorem isSpelled_deriveFrom {lexicon : List LexiconEntry}
    (hlexicon : ∀ e ∈ lexicon, e.IsSpelled speller) {rules : List String}
    {roots : List LexiconEntry}
    (h : d.deriveFrom (WordIndex.ofLexicon lexicon) rules = .ok roots) :
    ∀ e ∈ roots, e.IsSpelled speller := by
  induction rules generalizing lexicon roots with
  | nil =>
    cases h
    exact fun _ he ↦ absurd he List.not_mem_nil
  | cons raw rest ih =>
    obtain ⟨first, others, hfirst, hothers, rfl⟩ := deriveFrom_cons_eq_ok.1 h
    have hspelled := isSpelled_deriveLine hd haffixes hlexicon hfirst
    rw [WordIndex.foldl_register_ofLexicon fun e he ↦ (mem_deriveLine hfirst e he).1] at hothers
    have hnext : ∀ e ∈ lexicon ++ first, e.IsSpelled speller :=
      fun e he ↦ (List.mem_append.1 he).elim (hlexicon e) (hspelled e)
    exact fun e he ↦ (List.mem_append.1 he).elim (hspelled e) (ih hnext hothers e)

end Deriver

/-- **The words derived from a spelled lexicon are spelled**, with their forms or without them. -/
theorem isSpelled_deriveWords {rules : List String} {affixes : DerivationalAffixMap}
    {lexicon : List LexiconEntry} {affixMap : AffixMap} {speller : Speller} {alsoDecline : Bool}
    (hlexicon : ∀ e ∈ lexicon, e.IsSpelled speller) (haffixes : affixes.KeepsSolid)
    (hmap : affixMap.KeepsSolid) {words : List LexiconEntry}
    (h : deriveWords rules affixes lexicon affixMap speller alsoDecline = .ok words) :
    ∀ e ∈ words, e.IsSpelled speller := by
  have hroots : ∀ roots, deriveWords rules affixes lexicon affixMap speller false = .ok roots →
      ∀ e ∈ roots, e.IsSpelled speller := by
    intro roots hroots
    obtain ⟨d, hd, hroots⟩ := deriveWords_false_eq_ok.1 hroots
    exact Deriver.isSpelled_deriveFrom hd haffixes hlexicon hroots
  cases alsoDecline with
  | false => exact hroots words h
  | true =>
    obtain ⟨decliner, roots, hdecliner, hderived, rfl⟩ := deriveWords_true_eq_ok.1 h
    intro e he
    obtain ⟨r, hr, rfl | he⟩ := mem_withFamilies.1 he
    · exact hroots roots hderived e hr
    · exact Decliner.isSpelled_of_mem_declineEntry hdecliner hmap (hroots roots hderived r hr) he

end Glossopoeia
