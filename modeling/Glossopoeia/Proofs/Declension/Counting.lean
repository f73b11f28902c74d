import Mathlib.Algebra.BigOperators.Group.List.Basic
import Mathlib.Data.Fintype.EquivFin
import Mathlib.Data.Fintype.Option
import Mathlib.Data.Fintype.Prod
import Glossopoeia.Proofs.Declension.Selections

/-!
# The number of declined forms

A word has at most as many declined forms as there are selections, and exactly as many if no
selection is absorbed by another one (`Decliner.length_decline`).

To count selections they are told apart by the places of what they take (`Selection`): two rules of
one slot that are the same make two of them.  From each slot a selection takes either nothing or one
of the usable rules, which makes the product of `Selection.card_eq_prod`, and the one that takes
nothing at all makes no form.

Declension makes the form of a selection many times over, once for each combination of slots that
begins with the selection's own, and in an order that depends on the slots.  None of this matters
for the count: the forms that are kept are some of the forms of selections, and none of them twice.
-/

set_option autoImplicit false

namespace Glossopoeia

open Outcome Text

/-- The rules of a slot that take part in declension: conditions among replacements do not. -/
def AffixSlot.usable (slot : AffixSlot) : List DeclensionRule :=
  slot.rules.filter (CompiledSlot.isUsable slot.kind)

/-! ## Rules -/

/-- A rule makes one form of another at most. -/
theorem AffixRule.Makes.unique {kind : AffixKind} {rule : AffixRule} {form next next' : List Char}
    (h : rule.Makes kind form next) (h' : rule.Makes kind form next') : next = next' := by
  cases h with
  | keep => cases h'; rfl
  | add => cases h'; rfl
  | choose _ hp =>
    cases h' with
    | choose _ hp' =>
      cases hp.symm.trans hp'
      rfl
  | replace hr =>
    cases h' with
    | replace hr' =>
      cases hr.symm.trans hr'
      rfl

/-- The usable rules of a slot that can be compiled make something of every form. -/
theorem AffixSlot.exists_makes {slot : AffixSlot} {compiled : CompiledSlot}
    (h : CompiledSlot.ofSlot slot = .ok compiled) {rule : DeclensionRule}
    (hrule : rule ∈ slot.usable) (form : List Char) :
    ∃ next, rule.affix.Makes slot.kind form next := by
  rw [CompiledSlot.ofSlot, bind_eq_ok] at h
  obtain ⟨rules, hrules, -⟩ := h
  obtain ⟨r, -, hr⟩ := exists_mem_of_mapM hrules rule hrule
  obtain ⟨t, ht, -⟩ := bind_eq_ok.1 hr
  exact ⟨_, (Transform.makes_iff (List.mem_filter.1 hrule).2 ht).2 rfl⟩

theorem AffixSlot.mem_usable_iff {slot : AffixSlot} {rule : DeclensionRule} {form next : List Char}
    (h : rule.affix.Makes slot.kind form next) : rule ∈ slot.usable ↔ rule ∈ slot.rules := by
  rw [usable, List.mem_filter, and_iff_left h.isUsable]

/-! ## Selections -/

/-- A selection by the places of what it takes: of each slot nothing, or one of the usable rules. -/
inductive Selection : List AffixSlot → Type
  /-- There are no more slots. -/
  | done : Selection []
  /-- Nothing is taken of the first slot. -/
  | skip {slot : AffixSlot} {slots : List AffixSlot} (rest : Selection slots) :
      Selection (slot :: slots)
  /-- A rule is taken of it. -/
  | take {slot : AffixSlot} {slots : List AffixSlot} (place : Fin slot.usable.length)
      (rest : Selection slots) : Selection (slot :: slots)
deriving DecidableEq

namespace Selection

variable {slots : List AffixSlot}

/-- The selection that takes nothing. -/
def nothing : (slots : List AffixSlot) → Selection slots
  | [] => done
  | _ :: slots => skip (nothing slots)

/-- The selection, put to a form, makes another under the labels of what it takes. -/
inductive Makes : {slots : List AffixSlot} → Selection slots → List Char → List String →
    List Char → Prop
  | done (form : List Char) : Makes done form [] form
  | skip {slot : AffixSlot} {slots : List AffixSlot} {rest : Selection slots}
      {form last : List Char} {labels : List String} (hrest : rest.Makes form labels last) :
      Makes (.skip rest : Selection (slot :: slots)) form labels last
  | take {slot : AffixSlot} {slots : List AffixSlot} {place : Fin slot.usable.length}
      {rest : Selection slots} {form next last : List Char} {labels : List String}
      (hmakes : slot.usable[place].affix.Makes slot.kind form next)
      (hrest : rest.Makes next labels last) :
      Makes (.take place rest) form (slot.usable[place].declension :: labels) last

/-! ### Their number -/

/-- A selection of the first slot and one of the others. -/
def consEquiv (slot : AffixSlot) (slots : List AffixSlot) :
    Selection (slot :: slots) ≃ Option (Fin slot.usable.length) × Selection slots where
  toFun
    | .skip rest => (none, rest)
    | .take place rest => (some place, rest)
  invFun
    | (none, rest) => .skip rest
    | (some place, rest) => .take place rest
  left_inv s := by cases s <;> rfl
  right_inv p := by rcases p with ⟨_ | _, _⟩ <;> rfl

instance fintype : (slots : List AffixSlot) → Fintype (Selection slots)
  | [] => ⟨{done}, fun s ↦ by cases s; simp⟩
  | slot :: slots =>
    have := fintype slots
    Fintype.ofEquiv _ (consEquiv slot slots).symm

theorem card_eq_prod (slots : List AffixSlot) :
    Fintype.card (Selection slots) = (slots.map fun slot ↦ slot.usable.length + 1).prod := by
  induction slots with
  | nil => rfl
  | cons slot slots ih =>
    rw [Fintype.card_congr (consEquiv slot slots), Fintype.card_prod, Fintype.card_option,
      Fintype.card_fin, ih, List.map_cons, List.prod_cons]

/-! ### What they make -/

variable {s s' : Selection slots} {form last last' : List Char} {labels labels' : List String}

theorem Makes.unique (h : s.Makes form labels last) (h' : s.Makes form labels' last') :
    labels = labels' ∧ last = last' := by
  induction h generalizing labels' last' with
  | done => cases h'; exact ⟨rfl, rfl⟩
  | skip _ ih =>
    cases h' with
    | skip hrest => exact ih hrest
  | take hmakes _ ih =>
    cases h' with
    | take hmakes' hrest =>
      cases hmakes.unique hmakes'
      obtain ⟨rfl, rfl⟩ := ih hrest
      exact ⟨rfl, rfl⟩

theorem Makes.labels_eq_nil_iff (h : s.Makes form labels last) :
    labels = [] ↔ s = nothing slots := by
  induction h with
  | done => exact ⟨fun _ ↦ rfl, fun _ ↦ rfl⟩
  | skip _ ih => simp [nothing, ih]
  | take => simp [nothing]

/-- If the rules of the slots can be compiled, every selection makes something. -/
theorem exists_makes {compiled : List CompiledSlot}
    (h : slots.mapM CompiledSlot.ofSlot = .ok compiled) (s : Selection slots) (form : List Char) :
    ∃ labels last, s.Makes form labels last := by
  induction s generalizing form compiled with
  | done => exact ⟨_, _, .done form⟩
  | skip rest ih =>
    rw [List.mapM_cons, bind_eq_ok] at h
    obtain ⟨_, -, h⟩ := h
    obtain ⟨_, hrest, -⟩ := bind_eq_ok.1 h
    obtain ⟨labels, last, hmakes⟩ := ih hrest form
    exact ⟨labels, last, .skip hmakes⟩
  | take place rest ih =>
    rw [List.mapM_cons, bind_eq_ok] at h
    obtain ⟨_, hslot, h⟩ := h
    obtain ⟨_, hrest, -⟩ := bind_eq_ok.1 h
    obtain ⟨next, hnext⟩ := AffixSlot.exists_makes hslot (List.getElem_mem place.isLt) form
    obtain ⟨labels, last, hmakes⟩ := ih hrest next
    exact ⟨_, last, .take hnext hmakes⟩

/-- Selections by places make what is made by one rule of each of some of the slots. -/
theorem exists_makes_iff :
    (∃ s : Selection slots, s.Makes form labels last)
      ↔ ∃ chosen, chosen.Sublist slots ∧ Selects chosen form labels last := by
  constructor
  · rintro ⟨s, h⟩
    induction h with
    | done => exact ⟨[], .slnil, .nil _⟩
    | skip _ ih =>
      obtain ⟨chosen, hsub, hselects⟩ := ih
      exact ⟨chosen, hsub.cons _, hselects⟩
    | @take slot _ place _ _ _ _ _ hmakes _ ih =>
      obtain ⟨chosen, hsub, hselects⟩ := ih
      exact ⟨slot :: chosen, hsub.cons_cons slot,
        .cons ((AffixSlot.mem_usable_iff hmakes).1 (List.getElem_mem place.isLt)) hmakes hselects⟩
  · rintro ⟨chosen, hsub, hselects⟩
    induction hsub generalizing form labels with
    | slnil =>
      cases hselects
      exact ⟨.done, .done _⟩
    | cons slot _ ih =>
      obtain ⟨s, hs⟩ := ih hselects
      exact ⟨.skip s, .skip hs⟩
    | cons_cons slot _ ih =>
      cases hselects with
      | cons hrule hmakes hrest =>
        obtain ⟨s, hs⟩ := ih hrest
        obtain ⟨place, hplace, rfl⟩ :=
          List.getElem_of_mem ((AffixSlot.mem_usable_iff hmakes).2 hrule)
        exact ⟨.take ⟨place, hplace⟩ s, .take hmakes hs⟩

/-- No selection is absorbed by another: those that make the same form do so under labels that
differ somewhere. -/
def AreToldApart (slots : List AffixSlot) (form : List Char) : Prop :=
  ∀ (s s' : Selection slots) (labels labels' : List String) (last : List Char),
    s.Makes form labels last → s'.Makes form labels' last → labels ≠ [] → labels' ≠ [] →
      (∀ pair ∈ labels.zip labels', pair.1 = pair.2) → s = s'

end Selection

/-! ## Declined forms -/

theorem Selects.labels_eq_nil_iff {slots : List AffixSlot} {form last : List Char}
    {labels : List String} (h : Selects slots form labels last) : labels = [] ↔ slots = [] := by
  cases h <;> simp

namespace Decliner

variable {map : AffixMap} {speller : Speller} {d : Decliner} {w : RootWord}

/-- The forms of a word are those of the selections that take something. -/
theorem mem_variants_iff_makes (hd : ofAffixMap map speller = .ok d) {v : Variant} :
    v ∈ d.variants w ↔ v.partOfSpeech = w.partOfSpeech ∧ v.declension ≠ [] ∧
      ∃ s : Selection (map.selectable w.partOfSpeech),
        s.Makes w.phonetic.toList v.declension v.phonetic := by
  rw [Selection.exists_makes_iff]
  constructor
  · intro hv
    obtain ⟨hpos, slots, h⟩ := exists_isSelection_of_mem_variants hd hv
    exact ⟨hpos, mt h.selects.labels_eq_nil_iff.1 h.ne_nil, slots, h.sublist, h.selects⟩
  · rintro ⟨hpos, hlabels, slots, hsub, hselects⟩
    have hv := mem_variants_of_isSelection hd
      ⟨mt hselects.labels_eq_nil_iff.2 hlabels, hsub, hselects⟩
    rwa [← hpos] at hv

/-- The forms of a word as a function of the selections. -/
theorem exists_made (hd : ofAffixMap map speller = .ok d) (w : RootWord) :
    ∃ made : Selection (map.selectable w.partOfSpeech) → Variant,
      (∀ s, Selection.Makes s w.phonetic.toList (made s).declension (made s).phonetic) ∧
      ∀ v, v ∈ d.variants w ↔ ∃ s ≠ Selection.nothing _, made s = v := by
  choose labels last hmakes using fun s : Selection (map.selectable w.partOfSpeech) ↦
    Selection.exists_makes (mapM_selectable hd w.partOfSpeech) s w.phonetic.toList
  refine ⟨fun s ↦ ⟨last s, labels s, w.partOfSpeech⟩, hmakes, fun v ↦ ?_⟩
  rw [mem_variants_iff_makes hd]
  constructor
  · rintro ⟨hpos, hlabels, s, hs⟩
    obtain ⟨hdeclension, hphonetic⟩ := (hmakes s).unique hs
    refine ⟨s, mt hs.labels_eq_nil_iff.2 hlabels, ?_⟩
    dsimp only
    rw [hdeclension, hphonetic, ← hpos]
  · rintro ⟨s, hs, rfl⟩
    exact ⟨rfl, mt (hmakes s).labels_eq_nil_iff.1 hs, s, hmakes s⟩

/-- **As many forms are kept as there are selections**, or fewer. -/
theorem length_dedup_variants (hd : ofAffixMap map speller = .ok d) (w : RootWord) :
    (Variant.dedup (d.variants w)).length
        ≤ ((map.selectable w.partOfSpeech).map fun slot ↦ slot.usable.length + 1).prod - 1 ∧
      (Selection.AreToldApart (map.selectable w.partOfSpeech) w.phonetic.toList →
        (Variant.dedup (d.variants w)).length
          = ((map.selectable w.partOfSpeech).map fun slot ↦ slot.usable.length + 1).prod - 1) := by
  obtain ⟨made, hmakes, hvariants⟩ := exists_made hd w
  have hcard : (Finset.univ.erase (Selection.nothing (map.selectable w.partOfSpeech))).card
      = ((map.selectable w.partOfSpeech).map fun slot ↦ slot.usable.length + 1).prod - 1 := by
    rw [Finset.card_erase_of_mem (Finset.mem_univ _), Finset.card_univ, Selection.card_eq_prod]
  rw [← List.toFinset_card_of_nodup (Variant.nodup_dedup (d.variants w)), ← hcard]
  have hle : (Variant.dedup (d.variants w)).toFinset.card
      ≤ (Finset.univ.erase (Selection.nothing (map.selectable w.partOfSpeech))).card := by
    refine (Finset.card_le_card fun v hv ↦ ?_).trans (Finset.card_image_le (f := made))
    obtain ⟨s, hs, rfl⟩ :=
      (hvariants v).1 (Variant.mem_of_mem_dedup (List.mem_toFinset.1 hv))
    exact Finset.mem_image_of_mem made (Finset.mem_erase.2 ⟨hs, Finset.mem_univ s⟩)
  refine ⟨hle, fun hapart ↦ le_antisymm hle ?_⟩
  have hlabels {s : Selection (map.selectable w.partOfSpeech)} (hs : s ≠ .nothing _) :
      (made s).declension ≠ [] := mt (hmakes s).labels_eq_nil_iff.1 hs
  refine Finset.card_le_card_of_injOn made (fun s hs ↦ ?_) fun s hs s' hs' heq ↦ ?_
  · -- What absorbs the form of `s` is the form of a selection, which cannot be another one.
    have hs := Finset.ne_of_mem_erase hs
    obtain ⟨kept, hkept, habsorbs⟩ :=
      Variant.exists_absorbs_of_mem ((hvariants _).2 ⟨s, hs, rfl⟩)
    obtain ⟨s', hs', rfl⟩ := (hvariants kept).1 (Variant.mem_of_mem_dedup hkept)
    have heq := hapart s' s _ _ _ (hmakes s') (habsorbs.phonetic ▸ hmakes s) (hlabels hs')
      (hlabels hs) (Variant.labelsAgree_iff.1 habsorbs.labels)
    exact List.mem_toFinset.2 (heq ▸ hkept)
  · refine hapart s s' _ _ _ (hmakes s) (heq ▸ hmakes s') (hlabels (Finset.ne_of_mem_erase hs))
      (hlabels (Finset.ne_of_mem_erase hs')) ?_
    rw [heq]
    exact Variant.labelsAgree_iff.1 (Variant.Absorbs.refl _).labels

/-- Every gloss has its entry of every form. -/
theorem length_flatMap_entriesOf (d : Decliner) (w : RootWord) (forms : List Variant) :
    (forms.flatMap (d.entriesOf w)).length = w.glosses.length * forms.length := by
  simp [List.length_flatMap, entriesOf, Nat.mul_comm]

/-- **The number of declined forms**: for each gloss of the word at most one for each way to take
some of the slots and a usable rule of each, and exactly as many if no two of these ways make the
same form under labels that agree as far as both go. -/
theorem length_decline (hd : ofAffixMap map speller = .ok d) {word : WordInput} {derived : Bool}
    (hw : word.toRoot speller derived = .ok w) :
    ∃ entries, d.decline word derived = .ok entries ∧
      entries.length ≤ w.glosses.length *
        (((map.selectable w.partOfSpeech).map fun slot ↦ slot.usable.length + 1).prod - 1) ∧
      (Selection.AreToldApart (map.selectable w.partOfSpeech) w.phonetic.toList →
        entries.length = w.glosses.length *
          (((map.selectable w.partOfSpeech).map fun slot ↦ slot.usable.length + 1).prod - 1)) := by
  obtain ⟨hle, heq⟩ := length_dedup_variants hd w
  refine ⟨_, decline_eq_ok hd hw, ?_, fun hapart ↦ ?_⟩
  · rw [length_flatMap_entriesOf]
    exact Nat.mul_le_mul_left _ hle
  · rw [length_flatMap_entriesOf, heq hapart]

/-- The slot of the article. -/
def articles : AffixSlot := ⟨.front, [article]⟩

/-- The slot of a plural that is the same for all nouns. -/
def regularPlurals : AffixSlot := ⟨.back, [⟨"Plural", .plain "z" "z"⟩]⟩

/-- Nouns take an article and a plural. -/
def articlesAndRegularPlurals : AffixMap :=
  ⟨[("n", [articles, regularPlurals])], List.pairwise_singleton _ _⟩

/-- A noun of two meanings. -/
def hound : RootWord :=
  ⟨"dɔg", "n", ["dog", "hound"], false, WordInput.sourceOf ⟨[]⟩ "dɔg" "dog" "n"⟩

/-- Article and plural can be heard wherever they are. -/
theorem areToldApart_hound :
    Selection.AreToldApart [articles, regularPlurals] hound.phonetic.toList := by
  have hfirst {slot : AffixSlot} (hlength : slot.usable.length = 1)
      (place : Fin slot.usable.length) : place = ⟨0, by omega⟩ := Fin.ext (by omega)
  have harticle (place : Fin articles.usable.length) := hfirst rfl place
  have hplural (place : Fin regularPlurals.usable.length) := hfirst rfl place
  have hforms {s : Selection [articles, regularPlurals]} {labels : List String}
      {last : List Char} (h : s.Makes hound.phonetic.toList labels last) (hne : labels ≠ []) :
      s = .take ⟨0, by decide⟩ (.skip .done) ∧ labels = ["Definite"] ∧ last = "nadɔg".toList ∨
      s = .skip (.take ⟨0, by decide⟩ .done) ∧ labels = ["Plural"] ∧ last = "dɔgz".toList ∨
      s = .take ⟨0, by decide⟩ (.take ⟨0, by decide⟩ .done) ∧ labels = ["Definite", "Plural"] ∧
        last = "nadɔgz".toList := by
    cases h with
    | skip hrest =>
      cases hrest with
      | skip hrest => cases hrest; exact absurd rfl hne
      | @take _ _ place _ _ _ _ _ hmakes hrest =>
        cases hplural place
        cases hrest
        cases hmakes
        exact .inr (.inl ⟨rfl, rfl, rfl⟩)
    | @take _ _ place _ _ _ _ _ hmakes hrest =>
      cases harticle place
      cases hmakes
      cases hrest with
      | skip hrest => cases hrest; exact .inl ⟨rfl, rfl, rfl⟩
      | @take _ _ place _ _ _ _ _ hmakes hrest =>
        cases hplural place
        cases hrest
        cases hmakes
        exact .inr (.inr ⟨rfl, rfl, rfl⟩)
  -- The three forms all sound different.
  rintro s s' labels labels' last hs hs' hne hne' -
  rcases hforms hs hne with ⟨rfl, rfl, rfl⟩ | ⟨rfl, rfl, rfl⟩ | ⟨rfl, rfl, rfl⟩ <;>
    rcases hforms hs' hne' with ⟨rfl, rfl, heq⟩ | ⟨rfl, rfl, heq⟩ | ⟨rfl, rfl, heq⟩ <;>
    first | rfl | exact absurd heq (by decide)

/-- The dog or hound has three declined forms in either meaning. -/
theorem length_decline_hound : ∃ d entries,
    ofAffixMap articlesAndRegularPlurals ⟨[]⟩ = .ok d ∧
    (WordInput.line "dog, hound : n = dɔg < old").toRoot ⟨[]⟩ false = .ok hound ∧
    Selection.AreToldApart (articlesAndRegularPlurals.selectable "n") hound.phonetic.toList ∧
    d.decline (.line "dog, hound : n = dɔg < old") false = .ok entries ∧ entries.length = 6 := by
  have hslots : articlesAndRegularPlurals.selectable "n" = [articles, regularPlurals] := by
    simp [AffixMap.selectable, AffixMap.inOrder, articlesAndRegularPlurals, articles,
      regularPlurals, Dictionary.get?, List.mergeSort, List.MergeSort.Internal.splitInTwo,
      AffixKind.name]
  obtain ⟨d, hd⟩ := exists_eq_ok_of_isOk
    (by decide : (ofAffixMap articlesAndRegularPlurals ⟨[]⟩).isOk = true)
  have hread : WordNotation.read "dog, hound : n = dɔg < old"
      = .ok ⟨["dog", "hound"], "n", "dɔg"⟩ := by decide
  have hword : (WordInput.line "dog, hound : n = dɔg < old").toRoot ⟨[]⟩ false = .ok hound := by
    rw [WordInput.toRoot, hread]
    rfl
  have hapart : Selection.AreToldApart (articlesAndRegularPlurals.selectable "n")
      hound.phonetic.toList := hslots ▸ areToldApart_hound
  obtain ⟨entries, hentries, -, hlength⟩ := length_decline hd hword
  refine ⟨d, entries, hd, hword, hapart, hentries, ?_⟩
  rw [hlength hapart, show hound.partOfSpeech = "n" from rfl, hslots]
  rfl

end Decliner

end Glossopoeia
