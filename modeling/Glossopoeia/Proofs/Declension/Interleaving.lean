import Glossopoeia.Proofs.Declension.Selections
import Glossopoeia.Proofs.Lexicon.Sorting

/-!
# The order of slots

How prefixes, replacements and suffixes are interleaved in an affix map makes no difference to
declension, and neither do its particles: only the order of the slots of each kind counts
(`Decliner.decline_interleaved`).

Declension sorts slots by kind, and a stable sort by few keys collects what has each key in turn
(`flatMap_filter_of_pairwise`), so slots of one kind that stay in order end up in the same places.
Particles take part in the combinations of slots, but they come first and a combination with a
particle at its head makes no form.  What is left are the combinations of the other slots in their
old order (`flatMap_allCombinations_append`).
-/

set_option autoImplicit false

namespace Glossopoeia

open Outcome Text

/-! ## Sorted lists -/

section Sorted

variable {α : Type}

/-- A list in which all that has `p` comes first consists of that and the rest. -/
theorem filter_append_filter_not {p : α → Bool} {list : List α}
    (h : list.Pairwise fun a b ↦ p b = true → p a = true) :
    list.filter p ++ list.filter (!p ·) = list := by
  induction list with
  | nil => rfl
  | cons a list ih =>
    obtain ⟨ha, hlist⟩ := List.pairwise_cons.1 h
    by_cases hp : p a = true
    · simp [hp, ih hlist]
    · have hnone : ∀ b ∈ list, p b = false := fun b hb ↦ by
        simpa using mt (ha b hb) hp
      rw [List.filter_cons_of_neg hp, List.filter_cons_of_pos (by simpa using hp),
        List.filter_eq_nil_iff.2 fun b hb ↦ by simp [hnone b hb],
        List.filter_eq_self.2 fun b hb ↦ by simp [hnone b hb]]
      rfl

/-- **A list sorted by a key holds what has each key, one key after the other.** -/
theorem flatMap_filter_of_pairwise {key : α → Nat} {list : List α}
    (h : list.Pairwise fun a b ↦ key a ≤ key b) (bound : Nat) :
    (List.range bound).flatMap (fun k ↦ list.filter (key · = k)) = list.filter (key · < bound) := by
  induction bound with
  | zero => simp
  | succ bound ih =>
    have hbelow : (list.filter (key · < bound + 1)).Pairwise fun a b ↦
        decide (key b < bound) = true → decide (key a < bound) = true :=
      (h.filter _).imp fun hab hb ↦ by simpa using Nat.lt_of_le_of_lt hab (of_decide_eq_true hb)
    have hless : (list.filter (key · < bound + 1)).filter (key · < bound)
        = list.filter (key · < bound) := by
      rw [List.filter_filter]
      exact List.filter_congr fun a _ ↦ by grind
    have hequal : (list.filter (key · < bound + 1)).filter (fun a ↦ !decide (key a < bound))
        = list.filter (key · = bound) := by
      rw [List.filter_filter]
      exact List.filter_congr fun a _ ↦ by grind
    rw [List.range_succ, List.flatMap_append, ih, ← filter_append_filter_not hbelow, hless, hequal,
      List.flatMap_cons, List.flatMap_nil, List.append_nil]

end Sorted

/-! ## Slots in order -/

/-- Items sorted by a kind are sorted by a key. -/
theorem mergeSort_rank {α : Type} (kind : α → AffixKind) (list : List α) :
    list.mergeSort (fun a b ↦ decide ((kind a).rank ≤ (kind b).rank))
      = LexicalOrder.sortByKey (fun a ↦ ((kind a).rank : Int)) list := by
  rw [LexicalOrder.sortByKey_eq_insertionSort, ← LexicalOrder.mergeSort_eq_insertionSort_of_key]
  simp

theorem pairwise_mergeSort_rank {α : Type} (kind : α → AffixKind) (list : List α) :
    (list.mergeSort fun a b ↦ decide ((kind a).rank ≤ (kind b).rank)).Pairwise
      fun a b ↦ (kind a).rank ≤ (kind b).rank := by
  rw [mergeSort_rank]
  exact (LexicalOrder.pairwise_sortByKey (fun a ↦ ((kind a).rank : Int)) list).imp Int.ofNat_le.1

namespace AffixMap

/-- The slots of a part of speech that are of one kind. -/
def slotsOfKind (map : AffixMap) (pos : String) (kind : AffixKind) : List AffixSlot :=
  ((map.get? pos).getD []).filter (·.kind = kind)

theorem inOrder_eq_mergeSort (map : AffixMap) (pos : String) :
    map.inOrder pos
      = ((map.get? pos).getD []).mergeSort fun a b ↦ decide (a.kind.rank ≤ b.kind.rank) := by
  simp only [inOrder, AffixKind.name_le_name_iff]

theorem filter_inOrder (map : AffixMap) (pos : String) (kind : AffixKind) :
    (map.inOrder pos).filter (·.kind = kind) = map.slotsOfKind pos kind := by
  rw [inOrder_eq_mergeSort, mergeSort_rank, LexicalOrder.filter_sortByKey]
  refine LexicalOrder.sortByKey_of_pairwise _ (List.pairwise_of_forall_mem_list ?_)
  intro a ha b hb
  have hkinds : a.kind = kind ∧ b.kind = kind := by simp_all
  rw [hkinds.1, hkinds.2]

/-- **The slots of a part of speech are taken kind by kind.** -/
theorem inOrder_eq (map : AffixMap) (pos : String) :
    map.inOrder pos
      = [.particle, .front, .replacement, .back].flatMap (map.slotsOfKind pos) := by
  have hpairwise : (map.inOrder pos).Pairwise fun a b ↦ a.kind.rank ≤ b.kind.rank := by
    rw [inOrder_eq_mergeSort]
    exact pairwise_mergeSort_rank AffixSlot.kind _
  have hbound : (map.inOrder pos).filter (·.kind.rank < 4) = map.inOrder pos :=
    List.filter_eq_self.2 fun slot _ ↦ by cases slot.kind <;> rfl
  have hranks : List.range 4
      = [AffixKind.particle, .front, .replacement, .back].map AffixKind.rank := rfl
  have hfibres := flatMap_filter_of_pairwise hpairwise 4
  rw [hbound, hranks, List.flatMap_map] at hfibres
  rw [← hfibres]
  refine List.flatMap_congr fun kind _ ↦ ?_
  rw [← filter_inOrder]
  refine List.filter_congr fun slot _ ↦ decide_eq_decide.2 ?_
  cases slot.kind <;> cases kind <;> decide

/-- What a selection can take is given by the slots of each kind. -/
theorem selectable_congr {map map' : AffixMap} {pos : String}
    (h : ∀ kind ≠ .particle, map.slotsOfKind pos kind = map'.slotsOfKind pos kind) :
    map.selectable pos = map'.selectable pos := by
  rw [selectable, selectable, inOrder_eq, inOrder_eq, List.filter_flatMap, List.filter_flatMap]
  refine List.flatMap_congr fun kind _ ↦ ?_
  by_cases hkind : kind = .particle
  · simp [hkind, slotsOfKind, List.filter_filter]
  · rw [h kind hkind]

end AffixMap

namespace Decliner

variable {map map' : AffixMap} {speller : Speller} {d d' : Decliner}

/-- The slots of a decliner begin with the particles. -/
theorem slotsOf_eq_append (hd : ofAffixMap map speller = .ok d) (pos : String) :
    (d.slotsOf pos).filter (·.kind = .particle) ++ (d.slotsOf pos).filter (·.kind ≠ .particle)
      = d.slotsOf pos := by
  obtain ⟨slots, -, heq⟩ := slotsOf_of_ofAffixMap hd pos
  have hpairwise := pairwise_mergeSort_rank CompiledSlot.kind slots
  rw [← sortSlots, ← heq] at hpairwise
  have hfirst : (d.slotsOf pos).Pairwise fun a b ↦
      decide (b.kind = .particle) = true → decide (a.kind = .particle) = true := by
    refine hpairwise.imp fun {a b} hle hb ↦ ?_
    rw [decide_eq_true_eq] at hb ⊢
    rw [hb] at hle
    cases ha : a.kind <;> simp_all [AffixKind.rank]
  simpa using filter_append_filter_not hfirst

end Decliner

/-! ## Combinations -/

section Combinations

variable {α β : Type} {f : List α → List β}

/-- Combinations with an item at their head that makes nothing can be left out. -/
theorem flatMap_allCombinations_cons {a : α} (h : ∀ rest, f (a :: rest) = []) (items : List α) :
    (allCombinations (a :: items)).flatMap f = (allCombinations items).flatMap f := by
  have hsize (n : Nat) : (combinations (n + 1) (a :: items)).flatMap f
      = (combinations (n + 1) items).flatMap f := by
    simp [combinations_succ, choices, List.flatMap_map, h]
  have hlast : combinations (items.length + 1) items = [] := by
    rw [combinations_succ, choices_eq_nil_iff]
    exact Nat.lt_succ_self _
  rw [allCombinations, allCombinations, List.flatMap_assoc, List.flatMap_assoc, List.length_cons,
    List.range_succ, List.flatMap_append]
  simp only [hsize, List.flatMap_cons, List.flatMap_nil, hlast, List.append_nil]

theorem flatMap_allCombinations_append {front : List α}
    (h : ∀ a ∈ front, ∀ rest, f (a :: rest) = []) (items : List α) :
    (allCombinations (front ++ items)).flatMap f = (allCombinations items).flatMap f := by
  induction front with
  | nil => rfl
  | cons a front ih =>
    obtain ⟨ha, hfront⟩ := List.forall_mem_cons.1 h
    rw [List.cons_append, flatMap_allCombinations_cons ha, ih hfront]

end Combinations

/-! ## Declined forms -/

namespace Decliner

variable {map map' : AffixMap} {speller : Speller} {d d' : Decliner}

/-- Particles make no difference to the forms of a word. -/
theorem variants_eq (hd : ofAffixMap map speller = .ok d) (w : RootWord) :
    d.variants w
      = (allCombinations ((d.slotsOf w.partOfSpeech).filter (·.kind ≠ .particle))).flatMap
        fun slots ↦ Variant.expand w.partOfSpeech slots w.phonetic.toList [] := by
  rw [variants]
  conv_lhs => rw [← slotsOf_eq_append hd]
  refine flatMap_allCombinations_append (fun slot hslot rest ↦ ?_) _
  rw [Variant.expand, if_pos (by simpa using (List.mem_filter.1 hslot).2)]

/-- **Only the order within each kind of slots counts**, and particles do not: if two affix maps
have the same prefixes, the same replacements and the same suffixes for the part of speech of a
word, they decline it to the same entries. -/
theorem decline_interleaved (hd : ofAffixMap map speller = .ok d)
    (hd' : ofAffixMap map' speller = .ok d') {word : WordInput} {derived : Bool} {w : RootWord}
    (hw : word.toRoot speller derived = .ok w)
    (hslots : ∀ kind ≠ .particle,
      map.slotsOfKind w.partOfSpeech kind = map'.slotsOfKind w.partOfSpeech kind) :
    ∃ entries, d.decline word derived = .ok entries ∧ d'.decline word derived = .ok entries := by
  have hcompiled := mapM_selectable hd w.partOfSpeech
  rw [AffixMap.selectable_congr hslots, mapM_selectable hd'] at hcompiled
  have hvariants : d.variants w = d'.variants w := by
    rw [variants_eq hd, variants_eq hd', Except.ok.inj hcompiled]
  refine ⟨_, decline_eq_ok hd hw, ?_⟩
  rw [← decline_congr hd hd' hw hvariants, decline_eq_ok hd hw]

/-- The slots of `articlesAndPlurals` without the particle and the other way round. -/
def articlesFirst : AffixMap :=
  ⟨[("n", [⟨.front, [article]⟩, ⟨.back, [plural]⟩])], List.pairwise_singleton _ _⟩

/-- The house has the same declined forms by either map. -/
theorem decline_interleaved_house : ∃ d d' entries,
    ofAffixMap articlesAndPlurals ⟨[]⟩ = .ok d ∧ ofAffixMap articlesFirst ⟨[]⟩ = .ok d' ∧
    (WordInput.fields "ˈka" "n" "house").toRoot ⟨[]⟩ false = .ok stressedHouse ∧
    (∀ kind ≠ .particle,
      articlesAndPlurals.slotsOfKind "n" kind = articlesFirst.slotsOfKind "n" kind) ∧
    d.decline (.fields "ˈka" "n" "house") false = .ok entries ∧
    d'.decline (.fields "ˈka" "n" "house") false = .ok entries := by
  obtain ⟨d, hd⟩ := exists_eq_ok_of_isOk
    (by decide : (ofAffixMap articlesAndPlurals ⟨[]⟩).isOk = true)
  obtain ⟨d', hd'⟩ := exists_eq_ok_of_isOk
    (by decide : (ofAffixMap articlesFirst ⟨[]⟩).isOk = true)
  have hword : (WordInput.fields "ˈka" "n" "house").toRoot ⟨[]⟩ false = .ok stressedHouse := rfl
  have hslots : ∀ kind ≠ .particle,
      articlesAndPlurals.slotsOfKind "n" kind = articlesFirst.slotsOfKind "n" kind := by
    intro kind hkind
    cases kind with
    | particle => exact absurd rfl hkind
    | _ => rfl
  obtain ⟨entries, h, h'⟩ := decline_interleaved hd hd' hword hslots
  exact ⟨d, d', entries, hd, hd', hword, hslots, h, h'⟩

end Decliner

end Glossopoeia
