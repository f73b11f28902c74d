import Glossopoeia.Proofs.Affix.Agree
import Glossopoeia.Proofs.Declension.Slots
import Glossopoeia.Proofs.GrammarTable.Corresponding

/-!
# Declension by corresponding slots

Two affix maps with corresponding slots, whose rules agree, decline a word to the same forms
(`Decliner.decline_eq_of_corresponds`).  The same combinations are taken of either map's slots, and
along a combination the forms stay the same because every rule leaves something in the form that the
next rule is put to.
-/

set_option autoImplicit false

namespace Glossopoeia

open Outcome Text

/-! ## Related lists -/

section Related

variable {α β γ : Type} {R : α → β → Prop} {list : List α} {list' : List β}

theorem flatMap_eq_of_forall₂ (h : List.Forall₂ R list list') {f : α → List γ} {g : β → List γ}
    (hfg : ∀ a b, R a b → f a = g b) : list.flatMap f = list'.flatMap g := by
  induction h with
  | nil => rfl
  | cons hhead _ ih => rw [List.flatMap_cons, List.flatMap_cons, hfg _ _ hhead, ih]

/-- Related items that are ordered alike are sorted alike. -/
theorem forall₂_mergeSort (h : List.Forall₂ R list list') {le : α → α → Bool}
    {le' : β → β → Bool} (hle : ∀ a b c d, R a b → R c d → le a c = le' b d) :
    List.Forall₂ R (list.mergeSort le) (list'.mergeSort le') := by
  obtain ⟨pairs, hpairs, rfl, rfl⟩ : ∃ pairs : List (α × β), (∀ p ∈ pairs, R p.1 p.2) ∧
      pairs.map Prod.fst = list ∧ pairs.map Prod.snd = list' := by
    induction h with
    | nil => exact ⟨[], fun _ hp ↦ absurd hp List.not_mem_nil, rfl, rfl⟩
    | @cons a b _ _ hhead _ ih =>
      obtain ⟨pairs, hpairs, rfl, rfl⟩ := ih
      exact ⟨(a, b) :: pairs, List.forall_mem_cons.2 ⟨hhead, hpairs⟩, rfl, rfl⟩
  have hfst := List.map_mergeSort (r := fun p q : α × β ↦ le p.1 q.1) (s := le) (f := Prod.fst)
    (l := pairs) fun _ _ _ _ ↦ rfl
  have hsnd := List.map_mergeSort (r := fun p q : α × β ↦ le p.1 q.1) (s := le') (f := Prod.snd)
    (l := pairs) fun p hp q hq ↦ hle _ _ _ _ (hpairs p hp) (hpairs q hq)
  rw [← hfst, ← hsnd, List.forall₂_map_left_iff, List.forall₂_map_right_iff, List.forall₂_same]
  exact fun p hp ↦ hpairs p (List.mem_mergeSort.1 hp)

theorem forall₂_choices (h : List.Forall₂ R list list') (size : Nat) :
    List.Forall₂ (List.Forall₂ R) (choices size list) (choices size list') := by
  induction h generalizing size with
  | nil =>
    cases size with
    | zero => exact .cons .nil .nil
    | succ size => exact .nil
  | @cons a b _ _ hhead _ ih =>
    cases size with
    | zero => exact .cons .nil .nil
    | succ size =>
      rw [choices, choices]
      refine List.rel_append ?_ (ih (size + 1))
      rw [List.forall₂_map_left_iff, List.forall₂_map_right_iff]
      exact (ih size).imp fun _ _ hrest ↦ .cons hhead hrest

/-- Of related lists the same combinations are taken. -/
theorem forall₂_allCombinations (h : List.Forall₂ R list list') :
    List.Forall₂ (List.Forall₂ R) (allCombinations list) (allCombinations list') := by
  rw [allCombinations, allCombinations, h.length_eq]
  refine List.rel_flatMap (List.forall₂_same.2 fun _ _ ↦ rfl) ?_
  rintro size _ rfl
  simpa only [combinations_succ] using forall₂_choices h (size + 1)

end Related

/-! ## Compiled slots -/

/-- The two rules make the same form, and do the same. -/
structure CompiledRule.Agree (r r' : CompiledRule) : Prop where
  /-- The name of the form. -/
  declension : r.declension = r'.declension
  /-- What they do. -/
  transform : r.transform.Agree r'.transform

/-- The two slots are of one kind, and their rules agree. -/
structure CompiledSlot.Agree (slot slot' : CompiledSlot) : Prop where
  /-- The kind. -/
  kind : slot.kind = slot'.kind
  /-- The rules. -/
  rules : List.Forall₂ CompiledRule.Agree slot.rules slot'.rules

theorem CompiledSlot.agree_of_ofSlot {slot slot' : AffixSlot} {compiled compiled' : CompiledSlot}
    (h : slot.Corresponds AffixRule.Agree slot') (hcompiled : ofSlot slot = .ok compiled)
    (hcompiled' : ofSlot slot' = .ok compiled') : compiled.Agree compiled' := by
  rw [ofSlot, bind_eq_ok] at hcompiled hcompiled'
  obtain ⟨rules, hrules, hcompiled⟩ := hcompiled
  obtain ⟨rules', hrules', hcompiled'⟩ := hcompiled'
  rw [← pure_eq_ok.1 hcompiled, ← pure_eq_ok.1 hcompiled']
  have husable : List.Forall₂ (DeclensionRule.Corresponds AffixRule.Agree)
      (slot.rules.filter (isUsable slot.kind)) (slot'.rules.filter (isUsable slot'.kind)) := by
    rw [← h.kind]
    refine List.rel_filter ?_ h.rules
    rintro ⟨declension, affix⟩ ⟨declension', affix'⟩ ⟨rfl : declension = declension', haffix⟩
    exact iff_of_eq (congrArg (· = true) (haffix.isUsable slot.kind declension))
  refine ⟨h.kind, forall₂_of_mapM husable (fun r r' b b' hr hb hb' ↦ ?_) hrules hrules'⟩
  obtain ⟨t, t', ht, ht', hagree⟩ := hr.affix.compiled
  rw [ht] at hb
  rw [ht'] at hb'
  cases hb
  cases hb'
  exact ⟨hr.declension, hagree⟩

namespace Decliner

variable {map map' : AffixMap} {speller : Speller} {d d' : Decliner}

/-- A map whose rules can all be compiled can be. -/
theorem exists_ofAffixMap_eq_ok
    (h : map.Holds fun _ rule ↦ ∃ t, Transform.ofRule rule.affix = .ok t) (speller : Speller) :
    ∃ d, ofAffixMap map speller = .ok d := by
  have hslots : ∀ entry ∈ map.entries, ∀ slot ∈ entry.2,
      ∃ compiled, CompiledSlot.ofSlot slot = .ok compiled := by
    intro entry hentry slot hslot
    have hrules := h entry.2 (List.mem_map_of_mem hentry) slot hslot
    have hcompiled : ∀ r ∈ slot.rules.filter (CompiledSlot.isUsable slot.kind), ∃ rule,
        (do let t ← Transform.ofRule r.affix; return (⟨r.declension, t⟩ : CompiledRule))
          = Except.ok rule := by
      intro r hr
      obtain ⟨t, ht⟩ := hrules r (List.mem_filter.1 hr).1
      rw [ht]
      exact ⟨_, rfl⟩
    obtain ⟨rules, hrules⟩ := exists_mapM_eq_ok_of_forall hcompiled
    rw [CompiledSlot.ofSlot, hrules]
    exact ⟨_, rfl⟩
  have hentries : ∀ entries ⊆ map.entries, ∃ compiled, compileEntries entries = .ok compiled := by
    intro entries hsubset
    induction entries with
    | nil => exact ⟨[], rfl⟩
    | cons entry rest ih =>
      obtain ⟨hentry, hrest⟩ := List.cons_subset.1 hsubset
      obtain ⟨others, hothers⟩ := ih hrest
      obtain ⟨first, hfirst⟩ := exists_mapM_eq_ok_of_forall (hslots entry hentry)
      exact ⟨_, compileEntries_cons_eq_ok.2 ⟨first, others, hfirst, hothers, rfl⟩⟩
  obtain ⟨compiled, hcompiled⟩ := hentries map.entries (List.Subset.refl _)
  rw [ofAffixMap, hcompiled]
  exact ⟨_, rfl⟩

theorem agree_slotsOf (hmap : map.Corresponds AffixRule.Agree map')
    (hd : ofAffixMap map speller = .ok d) (hd' : ofAffixMap map' speller = .ok d') (pos : String) :
    List.Forall₂ CompiledSlot.Agree (d.slotsOf pos) (d'.slotsOf pos) := by
  obtain ⟨slots, hslots, heq⟩ := slotsOf_of_ofAffixMap hd pos
  obtain ⟨slots', hslots', heq'⟩ := slotsOf_of_ofAffixMap hd' pos
  have hagree : List.Forall₂ CompiledSlot.Agree slots slots' :=
    forall₂_of_mapM (hmap pos) (fun _ _ _ _ ↦ CompiledSlot.agree_of_ofSlot) hslots hslots'
  rw [heq, heq', sortSlots, sortSlots]
  refine forall₂_mergeSort hagree fun a b c d hab hcd ↦ ?_
  rw [hab.kind, hcd.kind]

end Decliner

/-! ## Forms -/

/-- Along slots that agree the forms are the same. -/
theorem Variant.expand_eq {pos : String} {slots slots' : List CompiledSlot}
    (h : List.Forall₂ CompiledSlot.Agree slots slots') {form : List Char} (hform : IsSounded form)
    (labels : List String) : expand pos slots form labels = expand pos slots' form labels := by
  induction h generalizing form labels with
  | nil => rfl
  | @cons slot slot' _ _ hslot _ ih =>
    have hposition : slot.position = slot'.position := by
      rw [CompiledSlot.position, CompiledSlot.position, hslot.kind]
    rw [expand, expand, hslot.kind]
    split
    · rfl
    · refine flatMap_eq_of_forall₂ hslot.rules fun r r' hr ↦ ?_
      have hsame := hr.transform.same slot.position form hform
      have hsounded := hr.transform.isSounded slot.position form hform
      rw [hsame, hposition] at hsounded
      dsimp only
      rw [hsame, hposition, hr.declension, ih hsounded]

namespace Decliner

variable {map map' : AffixMap} {speller : Speller} {d d' : Decliner}

/-- **Slots that correspond decline alike** every word in which there is something to decline. -/
theorem decline_eq_of_corresponds (hmap : map.Corresponds AffixRule.Agree map')
    (hd : ofAffixMap map speller = .ok d) (hd' : ofAffixMap map' speller = .ok d')
    {word : WordInput} {derived : Bool} {root : RootWord}
    (hroot : word.toRoot speller derived = .ok root) (hsounded : IsSounded root.phonetic.toList) :
    d.decline word derived = d'.decline word derived := by
  refine decline_congr hd hd' hroot ?_
  rw [variants, variants]
  exact flatMap_eq_of_forall₂
    (forall₂_allCombinations (agree_slotsOf hmap hd hd' root.partOfSpeech))
    fun slots slots' hslots ↦ Variant.expand_eq hslots hsounded []

end Decliner

end Glossopoeia
