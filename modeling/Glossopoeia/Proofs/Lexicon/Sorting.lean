import Mathlib.Data.List.Sort
import Glossopoeia.Lexicon.Order

/-!
# Sorting by a key

`sortByKey` sorts stably: what has the same key stays as it was.  What the rest of the library needs
of that is one statement, `filter_sortByKey`: picking some items out of a sorted list is the same as
picking them first and sorting then.  So entries that come and go leave the others where they were.

* `sortByKey_eq_insertionSort` says what the sort computes, by recursion on the list.  Insertion
  keeps ties in order whether or not the key tells all items apart, so the statement needs no
  antisymmetry; the other facts follow it.
* `sortEntries_…` are the same facts for the entries of a lexicon under an alphabet.
-/

set_option autoImplicit false

namespace Glossopoeia.LexicalOrder

section Key

variable {α : Type} (key : α → Int)

/-! ## Merge sort and insertion sort -/

/-- An item goes before the first one that it does not exceed. -/
theorem orderedInsert_append {a : α} {small large : List α} (hs : ∀ b ∈ small, ¬key a ≤ key b)
    (hl : ∀ b ∈ large, key a ≤ key b) :
    (small ++ large).orderedInsert (fun x y ↦ key x ≤ key y) a = small ++ a :: large := by
  induction small with
  | nil =>
    cases large with
    | nil => rfl
    | cons b large => exact List.orderedInsert_cons_of_le _ _ (hl b (List.mem_cons_self ..))
  | cons b small ih =>
    rw [List.forall_mem_cons] at hs
    rw [List.cons_append, List.orderedInsert_cons, if_neg hs.1, ih hs.2, List.cons_append]

/-- Both sorts are stable, so they agree on ties as well. -/
theorem mergeSort_eq_insertionSort_of_key (list : List α) :
    list.mergeSort (fun x y ↦ decide (key x ≤ key y))
      = list.insertionSort fun x y ↦ key x ≤ key y := by
  have htrans : ∀ a b c : α, decide (key a ≤ key b) = true → decide (key b ≤ key c) = true →
      decide (key a ≤ key c) = true := by
    intro a b c hab hbc
    rw [decide_eq_true_eq] at hab hbc ⊢
    exact Int.le_trans hab hbc
  have htotal : ∀ a b : α, (decide (key a ≤ key b) || decide (key b ≤ key a)) = true := by
    intro a b
    simpa using Int.le_total (key a) (key b)
  induction list with
  | nil => simp
  | cons a list ih =>
    obtain ⟨small, large, hcons, htail, hsmall⟩ := List.mergeSort_cons htrans htotal a list
    have hsorted := List.pairwise_mergeSort htrans htotal (a :: list)
    rw [hcons, List.pairwise_append, List.pairwise_cons] at hsorted
    rw [List.insertionSort_cons, ← ih, htail, hcons, orderedInsert_append key]
    · intro b hb
      simpa using hsmall b hb
    · intro b hb
      simpa using hsorted.2.1.1 b hb

/-- What sorting by a key computes. -/
theorem sortByKey_eq_insertionSort (list : List α) :
    sortByKey key list = list.insertionSort fun x y ↦ key x ≤ key y := by
  rw [← mergeSort_eq_insertionSort_of_key, sortByKey,
    ← List.map_mergeSort (f := fun a ↦ (key a, a)) fun _ _ _ _ ↦ rfl, List.map_map]
  exact List.map_id _

/-! ## What sorting leaves alone -/

theorem perm_sortByKey (list : List α) : (sortByKey key list).Perm list := by
  rw [sortByKey_eq_insertionSort]
  exact List.perm_insertionSort _ list

@[simp]
theorem mem_sortByKey {list : List α} {a : α} : a ∈ sortByKey key list ↔ a ∈ list :=
  (perm_sortByKey key list).mem_iff

theorem pairwise_sortByKey (list : List α) :
    (sortByKey key list).Pairwise fun a b ↦ key a ≤ key b := by
  have : Std.Total fun a b : α ↦ key a ≤ key b := ⟨fun a b ↦ Int.le_total (key a) (key b)⟩
  have : IsTrans α fun a b ↦ key a ≤ key b := ⟨fun _ _ _ ↦ Int.le_trans⟩
  rw [sortByKey_eq_insertionSort]
  exact List.pairwise_insertionSort _ list

theorem sortByKey_of_pairwise {list : List α} (h : list.Pairwise fun a b ↦ key a ≤ key b) :
    sortByKey key list = list := by
  rw [sortByKey_eq_insertionSort]
  exact h.insertionSort_eq

/-! ## Picking items out of a sorted list -/

theorem filter_orderedInsert (p : α → Bool) (a : α) {list : List α}
    (h : list.Pairwise fun a b ↦ key a ≤ key b) :
    (list.orderedInsert (fun x y ↦ key x ≤ key y) a).filter p
      = if p a then (list.filter p).orderedInsert (fun x y ↦ key x ≤ key y) a
        else list.filter p := by
  induction list with
  | nil => cases hp : p a <;> simp [hp]
  | cons b list ih =>
    rw [List.orderedInsert_cons]
    split
    · next hab =>
      -- `a` goes to the front, and what is picked of the rest still does not come before it.
      have hall : ∀ c ∈ (b :: list).filter p, key a ≤ key c := by
        intro c hc
        rcases List.mem_cons.1 (List.mem_of_mem_filter hc) with rfl | hc
        · exact hab
        · exact Int.le_trans hab (List.rel_of_pairwise_cons h hc)
      have hfront := @orderedInsert_append _ key a [] _ (by simp) hall
      rw [List.nil_append, List.nil_append] at hfront
      rw [hfront, List.filter_cons]
    · next hab =>
      rw [List.filter_cons, ih h.of_cons, List.filter_cons]
      cases p a <;> cases p b <;> simp [hab]

/-- **Picking and sorting commute.** -/
theorem filter_sortByKey (p : α → Bool) (list : List α) :
    (sortByKey key list).filter p = sortByKey key (list.filter p) := by
  induction list with
  | nil => simp [sortByKey]
  | cons a list ih =>
    rw [sortByKey_eq_insertionSort, List.insertionSort_cons, ← sortByKey_eq_insertionSort,
      filter_orderedInsert key p a (pairwise_sortByKey key list), ih, List.filter_cons]
    cases p a with
    | false => simp
    | true => simp [sortByKey_eq_insertionSort]

end Key

/-! ## Entries under an alphabet -/

variable (o : LexicalOrder)

theorem perm_sortEntries (entries : List LexiconEntry) : (o.sortEntries entries).Perm entries :=
  perm_sortByKey _ entries

@[simp]
theorem mem_sortEntries {entries : List LexiconEntry} {e : LexiconEntry} :
    e ∈ o.sortEntries entries ↔ e ∈ entries :=
  mem_sortByKey _

theorem filter_sortEntries (p : LexiconEntry → Bool) (entries : List LexiconEntry) :
    (o.sortEntries entries).filter p = o.sortEntries (entries.filter p) :=
  filter_sortByKey _ p entries

/-- Two entries are not out of order exactly if their keys are not. -/
theorem compareEntries_ne_gt {a b : LexiconEntry} :
    o.compareEntries a b ≠ .gt ↔ o.key a.spelled ≤ o.key b.spelled := by
  rw [compareEntries, compareSpelled, Ne, Int.compare_eq_gt, Int.not_lt]

theorem pairwise_sortEntries (entries : List LexiconEntry) :
    (o.sortEntries entries).Pairwise fun a b ↦ o.compareEntries a b ≠ .gt := by
  simp only [compareEntries_ne_gt]
  exact pairwise_sortByKey _ entries

theorem sortEntries_of_pairwise {entries : List LexiconEntry}
    (h : entries.Pairwise fun a b ↦ o.compareEntries a b ≠ .gt) :
    o.sortEntries entries = entries := by
  simp only [compareEntries_ne_gt] at h
  rw [sortEntries]
  exact sortByKey_of_pairwise _ h

end Glossopoeia.LexicalOrder
