import Glossopoeia.Proofs.Declension.Selections

/-!
# Absorption keeps the shortest labels

An affix that changes nothing makes a form that sounds like the one it is put to, under more labels.
Of the two it is the shorter one that declension keeps (`Decliner.decline_shortest`).  Absorption
alone would not see to that: it compares labels up to the shorter list, so whichever of the two came
first would absorb the other, and along one combination the longer one does come first.

What decides is that the smaller combinations are taken before the greater ones.  A form under `n`
labels is made by `n` slots, and these are a combination by themselves; so once the combinations of
up to `n` slots are through, all forms under up to `n` labels have been made and no others
(`Decliner.mem_variantsUpTo_iff`).
-/

set_option autoImplicit false

namespace Glossopoeia

open Outcome Text

/-- What slots make is made by the first of them alone, by as many as there are new labels. -/
theorem Variant.exists_prefix_of_mem_expand {pos : String} {slots : List CompiledSlot}
    {form : List Char} {labels : List String} {v : Variant} (h : v ∈ expand pos slots form labels) :
    ∃ first, first <+: slots ∧ v ∈ expand pos first form labels ∧
      v.declension.length = labels.length + first.length := by
  induction slots generalizing form labels with
  | nil => exact absurd h List.not_mem_nil
  | cons slot rest ih =>
    rw [expand] at h
    split at h
    · exact absurd h List.not_mem_nil
    · next hkind =>
      obtain ⟨r, hr, h⟩ := List.mem_flatMap.1 h
      rcases List.mem_append.1 h with h | h
      · obtain ⟨first, hbegins, hmem, hlength⟩ := ih h
        refine ⟨slot :: first, List.cons_prefix_cons.2 ⟨rfl, hbegins⟩, ?_, ?_⟩
        · rw [expand, if_neg hkind]
          exact List.mem_flatMap.2 ⟨r, hr, List.mem_append_left _ hmem⟩
        · simp only [hlength, List.length_append, List.length_cons, List.length_nil]
          omega
      · refine ⟨[slot], List.cons_prefix_cons.2 ⟨rfl, List.nil_prefix⟩, ?_, ?_⟩
        · rw [expand, if_neg hkind]
          exact List.mem_flatMap.2 ⟨r, hr, List.mem_append_right _ h⟩
        · rw [List.mem_singleton.1 h]
          simp

namespace Decliner

variable {d : Decliner} {w : RootWord} {u v : Variant}

/-! ## Combination by combination -/

theorem mem_variants_iff : v ∈ d.variants w ↔
    ∃ chosen, chosen.Sublist (d.slotsOf w.partOfSpeech) ∧
      v ∈ Variant.expand w.partOfSpeech chosen w.phonetic.toList [] := by
  simp only [variants, List.mem_flatMap, mem_allCombinations_iff]
  refine ⟨fun ⟨chosen, hchosen, hv⟩ ↦ ⟨chosen, hchosen.2, hv⟩, fun ⟨chosen, hsub, hv⟩ ↦ ?_⟩
  exact ⟨chosen, ⟨fun hnil ↦ List.not_mem_nil (hnil ▸ hv), hsub⟩, hv⟩

/-- The forms that the combinations of up to `size` slots make of a word. -/
def variantsUpTo (d : Decliner) (w : RootWord) (size : Nat) : List Variant :=
  (List.range size).flatMap fun n ↦
    (combinations (n + 1) (d.slotsOf w.partOfSpeech)).flatMap fun slots ↦
      Variant.expand w.partOfSpeech slots w.phonetic.toList []

/-- They are the first ones to be made. -/
theorem variantsUpTo_prefix_variants {size : Nat} (h : size ≤ (d.slotsOf w.partOfSpeech).length) :
    d.variantsUpTo w size <+: d.variants w := by
  obtain ⟨more, hmore⟩ := Nat.exists_eq_add_of_le h
  rw [variants, allCombinations, List.flatMap_assoc, hmore, List.range_add, List.flatMap_append]
  exact List.prefix_append ..

/-- **They are the forms under up to `size` labels.** -/
theorem mem_variantsUpTo_iff {size : Nat} :
    v ∈ d.variantsUpTo w size ↔ v ∈ d.variants w ∧ v.declension.length ≤ size := by
  simp only [variantsUpTo, List.mem_flatMap, List.mem_range, combinations_succ, mem_choices_iff,
    mem_variants_iff]
  constructor
  · rintro ⟨n, hn, chosen, ⟨hsub, hlength⟩, hv⟩
    obtain ⟨first, hbegins, -, hlabels⟩ := Variant.exists_prefix_of_mem_expand hv
    refine ⟨⟨chosen, hsub, hv⟩, ?_⟩
    have hle := hbegins.length_le
    rw [hlabels, List.length_nil]
    omega
  · rintro ⟨⟨chosen, hsub, hv⟩, hle⟩
    obtain ⟨first, hbegins, hfirst, hlabels⟩ := Variant.exists_prefix_of_mem_expand hv
    have hpos : 0 < first.length :=
      List.length_pos_iff.2 fun hnil ↦ List.not_mem_nil (hnil ▸ hfirst)
    rw [hlabels, List.length_nil] at hle
    exact ⟨first.length - 1, by omega, first, ⟨hbegins.sublist.trans hsub, by omega⟩, hfirst⟩

theorem length_declension_le (h : v ∈ d.variants w) :
    v.declension.length ≤ (d.slotsOf w.partOfSpeech).length := by
  obtain ⟨chosen, hsub, hv⟩ := mem_variants_iff.1 h
  obtain ⟨first, hbegins, -, hlabels⟩ := Variant.exists_prefix_of_mem_expand hv
  rw [hlabels, List.length_nil, Nat.zero_add]
  exact hbegins.length_le.trans hsub.length_le

/-! ## What is kept of a word's forms -/

/-- What absorbs a form does so before forms under more labels come, and has no more labels. -/
theorem exists_absorbs_upTo (h : u ∈ d.variants w) :
    ∃ kept ∈ Variant.dedup (d.variantsUpTo w u.declension.length),
      kept.Absorbs u ∧ kept.declension <+: u.declension := by
  obtain ⟨kept, hkept, habsorbs⟩ :=
    Variant.exists_absorbs_of_mem (mem_variantsUpTo_iff.2 ⟨h, Nat.le_refl _⟩)
  have hle := (mem_variantsUpTo_iff.1 (Variant.mem_of_mem_dedup hkept)).2
  refine ⟨kept, hkept, habsorbs, ?_⟩
  rcases Variant.labelsAgree_iff_isPrefix_or.1 habsorbs.labels with hbegins | hbegins
  · exact hbegins
  · exact (hbegins.eq_of_length_le hle).symm ▸ List.prefix_refl _

/-- Every form is absorbed by one whose labels its own begin with. -/
theorem exists_kept_of_mem (h : u ∈ d.variants w) :
    ∃ kept ∈ Variant.dedup (d.variants w), kept.Absorbs u ∧ kept.declension <+: u.declension := by
  obtain ⟨kept, hkept, habsorbs⟩ := exists_absorbs_upTo h
  obtain ⟨more, hmore⟩ := variantsUpTo_prefix_variants (d := d) (w := w) (length_declension_le h)
  exact ⟨kept, hmore ▸ Variant.dedup_subset_append _ more hkept, habsorbs⟩

/-- **No form that is kept bears more labels than it takes to make it sound so.** -/
theorem declension_eq_of_mem_dedup (hv : v ∈ Variant.dedup (d.variants w)) (hu : u ∈ d.variants w)
    (hsound : u.phonetic = v.phonetic) (hpos : u.partOfSpeech = v.partOfSpeech)
    (hlabels : u.declension <+: v.declension) : u.declension = v.declension := by
  refine hlabels.eq_of_length_le (Nat.not_lt.1 fun hlt ↦ ?_)
  obtain ⟨before, after, hsplit, hnone⟩ := Variant.exists_before_of_mem_dedup hv
  obtain ⟨kept, hkept, habsorbs, hbegins⟩ := exists_absorbs_upTo hu
  -- `v` has too many labels to be made by the combinations that make `u`, so it comes after them.
  have hearly := variantsUpTo_prefix_variants (d := d) (w := w) (length_declension_le hu)
  have hlate : v ∉ d.variantsUpTo w u.declension.length := fun hmem ↦
    Nat.not_le.2 hlt (mem_variantsUpTo_iff.1 hmem).2
  have hbefore : d.variantsUpTo w u.declension.length <+: before := by
    have hupto : before ++ [v] <+: d.variants w := ⟨after, by simp [hsplit]⟩
    rcases List.prefix_or_prefix_of_prefix hearly hupto with h | h
    · rcases List.prefix_concat_iff.1 h with heq | h
      · exact absurd (heq ▸ List.mem_append_right _ (List.mem_singleton_self v)) hlate
      · exact h
    · exact absurd (h.subset (List.mem_append_right _ (List.mem_singleton_self v))) hlate
  obtain ⟨rest, rfl⟩ := hbefore
  exact hnone kept (Variant.dedup_subset_append _ rest hkept)
    ⟨habsorbs.phonetic.trans hsound, habsorbs.partOfSpeech.trans hpos,
      Variant.labelsAgree_iff_isPrefix_or.2 (.inl (hbegins.trans hlabels))⟩

/-! ## Declined forms -/

variable {map : AffixMap} {speller : Speller}

/-- **Declension keeps every form under its shortest labels.**  What it returns are the entries of a
list of forms, each made by a selection of rules and none there twice.  No selection makes such a
form under fewer of its labels; and the form of every selection is there, under the selection's own
labels or the first of them. -/
theorem decline_shortest (hd : ofAffixMap map speller = .ok d) {word : WordInput} {derived : Bool}
    (hw : word.toRoot speller derived = .ok w) :
    ∃ kept : List Variant, d.decline word derived = .ok (kept.flatMap (d.entriesOf w)) ∧
      kept.Nodup ∧
      (∀ v ∈ kept, v.partOfSpeech = w.partOfSpeech ∧
        (∃ slots, map.IsSelection w v.phonetic v.declension slots) ∧
        ∀ labels slots, map.IsSelection w v.phonetic labels slots → labels <+: v.declension →
          labels = v.declension) ∧
      ∀ form labels slots, map.IsSelection w form labels slots →
        ∃ v ∈ kept, v.phonetic = form ∧ v.declension <+: labels := by
  refine ⟨_, decline_eq_ok hd hw, Variant.nodup_dedup _, fun v hv ↦ ?_,
    fun form labels slots hselection ↦ ?_⟩
  · obtain ⟨hpos, hselection⟩ :=
      exists_isSelection_of_mem_variants hd (Variant.mem_of_mem_dedup hv)
    refine ⟨hpos, hselection, fun labels slots hshorter hlabels ↦ ?_⟩
    exact declension_eq_of_mem_dedup hv (mem_variants_of_isSelection hd hshorter) rfl hpos.symm
      hlabels
  · obtain ⟨v, hv, habsorbs, hlabels⟩ :=
      exists_kept_of_mem (mem_variants_of_isSelection hd hselection)
    exact ⟨v, hv, habsorbs.phonetic, hlabels⟩

/-- The plural of nouns. -/
def plurals : AffixSlot := ⟨.back, [⟨"Plural", .plain "z" "z"⟩]⟩

/-- Their definite form, which cannot be heard. -/
def silentDefinites : AffixSlot := ⟨.back, [⟨"Definite", .empty⟩]⟩

/-- Nouns have a number and a definite form. -/
def pluralsAndSilentDefinites : AffixMap :=
  ⟨[("n", [plurals, silentDefinites])], List.pairwise_singleton _ _⟩

/-- A noun. -/
def dog : RootWord := ⟨"dɔg", "n", ["dog"], false, WordInput.sourceOf ⟨[]⟩ "dɔg" "dog" "n"⟩

/-- The dogs and the definite dogs sound alike, so only the first are kept. -/
theorem decline_shortest_dogs : ∃ d, ∃ kept : List Variant,
    ofAffixMap pluralsAndSilentDefinites ⟨[]⟩ = .ok d ∧
    (WordInput.fields "dɔg" "n" "dog").toRoot ⟨[]⟩ false = .ok dog ∧
    d.decline (.fields "dɔg" "n" "dog") false = .ok (kept.flatMap (d.entriesOf dog)) ∧
    ∃ v ∈ kept, v.phonetic = "dɔgz".toList ∧ v.declension <+: ["Plural", "Definite"] ∧
      v.declension ≠ ["Plural", "Definite"] := by
  have hslots : pluralsAndSilentDefinites.selectable "n" = [plurals, silentDefinites] := by
    simp [AffixMap.selectable, AffixMap.inOrder, pluralsAndSilentDefinites, plurals,
      silentDefinites, Dictionary.get?, List.mergeSort, List.MergeSort.Internal.splitInTwo]
  have hpluralRule : (⟨"Plural", .plain "z" "z"⟩ : DeclensionRule) ∈ plurals.rules :=
    List.mem_singleton_self _
  have hdefiniteRule : (⟨"Definite", .empty⟩ : DeclensionRule) ∈ silentDefinites.rules :=
    List.mem_singleton_self _
  have hplural {labels : List String} {slots : List AffixSlot} {last : List Char}
      (hrest : Selects slots "dɔgz".toList labels last) :
      Selects (plurals :: slots) "dɔg".toList ("Plural" :: labels) last :=
    .cons hpluralRule (.add "z" "z" _) hrest
  have hdefinite : Selects [silentDefinites] "dɔgz".toList ["Definite"] "dɔgz".toList :=
    .cons hdefiniteRule (.keep _) (.nil _)
  have hdogs : pluralsAndSilentDefinites.IsSelection dog "dɔgz".toList ["Plural"] [plurals] :=
    ⟨by simp, hslots ▸ by simp, hplural (.nil _)⟩
  have hdefinites : pluralsAndSilentDefinites.IsSelection dog "dɔgz".toList
      ["Plural", "Definite"] [plurals, silentDefinites] :=
    ⟨by simp, hslots ▸ List.Sublist.refl _, hplural hdefinite⟩
  obtain ⟨d, hd⟩ := exists_eq_ok_of_isOk
    (by decide : (ofAffixMap pluralsAndSilentDefinites ⟨[]⟩).isOk = true)
  have hword : (WordInput.fields "dɔg" "n" "dog").toRoot ⟨[]⟩ false = .ok dog := rfl
  obtain ⟨kept, hkept, -, hshortest, hcomplete⟩ := decline_shortest hd hword
  obtain ⟨v, hv, hform, hlabels⟩ := hcomplete _ _ _ hdefinites
  refine ⟨d, kept, hd, hword, hkept, v, hv, hform, hlabels, fun heq ↦ ?_⟩
  have hsame := (hshortest v hv).2.2 _ _ (hform ▸ hdogs) (by simp [heq])
  rw [heq] at hsame
  cases hsame

end Decliner

end Glossopoeia
