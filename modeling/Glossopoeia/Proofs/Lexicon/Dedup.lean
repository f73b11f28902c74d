import Glossopoeia.Lexicon.Dedup
import Glossopoeia.Proofs.Lexicon.Sorting

/-!
# Lexicons without repetitions

`dedupLexicon` keeps the first entry of each value.  Its recursion carries the values seen so far,
so every fact about it is proved for `dedupFrom seen` and read off at `seen = []`.

* `nodup_dedupFrom` and `mem_values_dedupFrom`: afterwards each value that was there is there once.
* `dedupFrom_append`: a list is deduplicated piece by piece; what the pieces before have is seen.
  In particular words that are put after a lexicon without repetitions never displace its entries.
* `sameWords_tidied`: two lexicons that are deduplicated and sorted have the same words as soon as
  the same values went into them, in whatever order and however often.
-/

set_option autoImplicit false

namespace Glossopoeia

open LexiconEntry

namespace LexiconEntry

theorem sameValue_iff {a b : LexiconEntry} : a.sameValue b = true ↔ a.value = b.value := by
  rw [sameValue, decide_eq_true_eq]

theorem sameValue_eq_false_iff {a b : LexiconEntry} :
    a.sameValue b = false ↔ a.value ≠ b.value := by
  rw [sameValue, decide_eq_false_iff_not]

/-- No two entries have the same value exactly if their values are distinct. -/
theorem pairwise_sameValue_iff {entries : List LexiconEntry} :
    (entries.Pairwise fun a b ↦ a.sameValue b = false) ↔ (entries.map value).Nodup := by
  rw [List.Nodup, List.pairwise_map]
  simp only [sameValue_eq_false_iff]

end LexiconEntry

/-! ## What is kept -/

theorem dedupFrom_sublist (seen : List Value) (entries : List LexiconEntry) :
    (dedupFrom seen entries).Sublist entries := by
  induction entries generalizing seen with
  | nil => exact List.Sublist.slnil
  | cons e rest ih =>
    rw [dedupFrom]
    split
    · exact (ih seen).cons e
    · exact (ih (e.value :: seen)).cons_cons e

theorem mem_of_mem_dedupLexicon {entries : List LexiconEntry} {e : LexiconEntry}
    (h : e ∈ dedupLexicon entries) : e ∈ entries :=
  (dedupFrom_sublist [] entries).subset h

/-- The values kept are those that are there and have not been seen. -/
theorem mem_values_dedupFrom {seen : List Value} {entries : List LexiconEntry} {v : Value} :
    v ∈ (dedupFrom seen entries).map value ↔ v ∈ entries.map value ∧ v ∉ seen := by
  induction entries generalizing seen with
  | nil => simp [dedupFrom]
  | cons e rest ih =>
    rw [dedupFrom]
    split
    · next hseen =>
      rw [List.contains_iff_mem] at hseen
      rw [ih, List.map_cons, List.mem_cons]
      refine ⟨fun h ↦ ⟨.inr h.1, h.2⟩, fun h ↦ ⟨h.1.resolve_left ?_, h.2⟩⟩
      rintro rfl
      exact h.2 hseen
    · next hseen =>
      rw [List.contains_iff_mem] at hseen
      rw [List.map_cons, List.mem_cons, ih, List.map_cons, List.mem_cons, List.mem_cons, not_or]
      by_cases hv : v = e.value
      · subst hv
        simp [hseen]
      · simp [hv]

@[simp]
theorem mem_values_dedupLexicon {entries : List LexiconEntry} {v : Value} :
    v ∈ (dedupLexicon entries).map value ↔ v ∈ entries.map value := by
  rw [dedupLexicon, mem_values_dedupFrom]
  simp

theorem nodup_dedupFrom (seen : List Value) (entries : List LexiconEntry) :
    ((dedupFrom seen entries).map value).Nodup := by
  induction entries generalizing seen with
  | nil => exact List.nodup_nil
  | cons e rest ih =>
    rw [dedupFrom]
    split
    · exact ih seen
    · rw [List.map_cons, List.nodup_cons]
      refine ⟨fun h ↦ ?_, ih _⟩
      exact (mem_values_dedupFrom.1 h).2 (List.mem_cons_self ..)

/-! ## Deduplication piece by piece -/

/-- Only which values have been seen counts. -/
theorem dedupFrom_congr {seen seen' : List Value} (h : ∀ v, v ∈ seen ↔ v ∈ seen')
    (entries : List LexiconEntry) : dedupFrom seen entries = dedupFrom seen' entries := by
  induction entries generalizing seen seen' with
  | nil => rfl
  | cons e rest ih =>
    have hcontains : seen.contains e.value = seen'.contains e.value := by
      rw [Bool.eq_iff_iff, List.contains_iff_mem, List.contains_iff_mem, h]
    have hcons : ∀ v, v ∈ e.value :: seen ↔ v ∈ e.value :: seen' := by
      intro v
      rw [List.mem_cons, List.mem_cons, h]
    rw [dedupFrom, dedupFrom, hcontains, ih h, ih hcons]

/-- What stands before counts as seen. -/
theorem dedupFrom_append (seen : List Value) (a b : List LexiconEntry) :
    dedupFrom seen (a ++ b) = dedupFrom seen a ++ dedupFrom (a.map value ++ seen) b := by
  induction a generalizing seen with
  | nil => rfl
  | cons e rest ih =>
    rw [List.cons_append, dedupFrom, dedupFrom]
    split
    · next hseen =>
      rw [List.contains_iff_mem] at hseen
      rw [ih]
      congr 1
      refine dedupFrom_congr (fun v ↦ ?_) b
      simp only [List.map_cons, List.cons_append, List.mem_cons, List.mem_append]
      refine ⟨.inr, ?_⟩
      rintro (rfl | h)
      · exact .inr hseen
      · exact h
    · rw [ih, List.cons_append]
      congr 2
      refine dedupFrom_congr (fun v ↦ ?_) b
      simp only [List.map_cons, List.cons_append, List.mem_cons, List.mem_append]
      tauto

theorem dedupLexicon_append (a b : List LexiconEntry) :
    dedupLexicon (a ++ b) = dedupLexicon a ++ dedupFrom (a.map value) b := by
  rw [dedupLexicon, dedupLexicon, dedupFrom_append, List.append_nil]

/-- Nothing is kept of entries whose values have all been seen. -/
theorem dedupFrom_eq_nil {seen : List Value} {entries : List LexiconEntry}
    (h : ∀ e ∈ entries, e.value ∈ seen) : dedupFrom seen entries = [] := by
  rw [List.eq_nil_iff_forall_not_mem]
  intro e he
  have hnew := (mem_values_dedupFrom.1 (List.mem_map_of_mem (f := value) he)).2
  exact hnew (h e ((dedupFrom_sublist seen entries).subset he))

/-- A list without repetitions, none of which has been seen, stays as it is. -/
theorem dedupFrom_of_nodup {seen : List Value} {entries : List LexiconEntry}
    (h : (entries.map value).Nodup) (hseen : ∀ e ∈ entries, e.value ∉ seen) :
    dedupFrom seen entries = entries := by
  induction entries generalizing seen with
  | nil => rfl
  | cons e rest ih =>
    rw [List.map_cons, List.nodup_cons] at h
    rw [List.forall_mem_cons] at hseen
    have hrest : ∀ e' ∈ rest, e'.value ∉ e.value :: seen := by
      intro e' he'
      rw [List.mem_cons, not_or]
      exact ⟨fun heq ↦ h.1 (heq ▸ List.mem_map_of_mem he'), hseen.2 e' he'⟩
    rw [dedupFrom, if_neg (by simpa using hseen.1), ih h.2 hrest]

theorem dedupLexicon_of_nodup {entries : List LexiconEntry} (h : (entries.map value).Nodup) :
    dedupLexicon entries = entries :=
  dedupFrom_of_nodup h fun _ _ ↦ List.not_mem_nil

/-- What has the value of an earlier entry is one of the earlier ones. -/
theorem mem_of_mem_dedupLexicon_append {a b : List LexiconEntry} {e : LexiconEntry}
    (h : e ∈ dedupLexicon (a ++ b)) (hvalue : e.value ∈ a.map value) : e ∈ a := by
  rw [dedupLexicon_append] at h
  rcases List.mem_append.1 h with h | h
  · exact mem_of_mem_dedupLexicon h
  · exact absurd hvalue (mem_values_dedupFrom.1 (List.mem_map_of_mem h)).2

/-- One more value seen is one value less kept. -/
theorem dedupFrom_cons (v : Value) (seen : List Value) (entries : List LexiconEntry) :
    dedupFrom (v :: seen) entries = (dedupFrom seen entries).filter fun e ↦ e.value != v := by
  induction entries generalizing seen with
  | nil => rfl
  | cons e rest ih =>
    rw [dedupFrom, dedupFrom]
    by_cases hseen : e.value ∈ seen
    · rw [if_pos (by simp [hseen]), if_pos (by simp [hseen]), ih]
    · rw [if_neg (c := seen.contains e.value = true) (by simpa using hseen), List.filter_cons]
      by_cases hv : e.value = v
      · -- The entry itself is the one that is left out.
        subst hv
        have hkept : ∀ e' ∈ dedupFrom (e.value :: seen) rest, (e'.value != e.value) = true := by
          intro e' he'
          have hnot := (mem_values_dedupFrom.1 (List.mem_map_of_mem (f := value) he')).2
          rw [List.mem_cons, not_or] at hnot
          simpa using hnot.1
        rw [if_pos (by simp), if_neg (by simp), List.filter_eq_self.2 hkept]
      · rw [if_neg (by simpa [hseen] using hv), if_pos (by simpa using hv), ← ih]
        refine congrArg (e :: ·) (dedupFrom_congr (fun w ↦ ?_) rest)
        simp only [List.mem_cons]
        tauto

/-- **What deduplication leaves of some entries of a list** is what it would leave of them by
themselves, less those whose value another entry of the list took first. -/
theorem filter_dedupFrom (p : LexiconEntry → Bool) (seen : List Value)
    (entries : List LexiconEntry) :
    (dedupFrom seen entries).filter p
      = (dedupFrom seen (entries.filter p)).filter fun e ↦
        !(dedupFrom seen entries).any fun d ↦ !p d && d.sameValue e := by
  induction entries generalizing seen with
  | nil => rfl
  | cons x rest ih =>
    rw [dedupFrom]
    by_cases hseen : x.value ∈ seen
    · have hdropped : dedupFrom seen ((x :: rest).filter p) = dedupFrom seen (rest.filter p) := by
        rw [List.filter_cons]
        split
        · rw [dedupFrom, if_pos (by simpa using hseen)]
        · rfl
      rw [if_pos (by simpa using hseen), hdropped, ih]
    · rw [if_neg (by simpa using hseen), List.filter_cons, List.filter_cons]
      cases hp : p x with
      | true =>
        -- No later entry has the value of `x`.
        have hx : ((dedupFrom (x.value :: seen) rest).any fun d ↦ !p d && d.sameValue x)
            = false := by
          rw [List.any_eq_false]
          intro d hd hsame
          rw [Bool.and_eq_true, sameValue_iff] at hsame
          have hnot := (mem_values_dedupFrom.1 (List.mem_map_of_mem (f := value) hd)).2
          exact hnot (hsame.2 ▸ List.mem_cons_self ..)
        rw [if_pos rfl, if_pos rfl, dedupFrom, if_neg (by simpa using hseen), List.filter_cons]
        simp only [List.any_cons, hp, Bool.not_true, Bool.false_and, Bool.false_or, hx,
          Bool.not_false, if_true]
        rw [ih]
      | false =>
        rw [if_neg Bool.false_ne_true, if_neg Bool.false_ne_true, ih,
          dedupFrom_cons x.value seen (rest.filter p), List.filter_filter]
        refine List.filter_congr fun e _ ↦ ?_
        have hvalue : (e.value != x.value) = !x.sameValue e := by
          rw [sameValue, bne, Bool.not_inj_iff, Bool.eq_iff_iff, beq_iff_eq, decide_eq_true_eq,
            eq_comm]
        rw [List.any_cons, hp, hvalue, Bool.not_false, Bool.true_and, Bool.not_or, Bool.and_comm]

/-! ## Lexicons with the same words -/

/-- Two lexicons have the same words: there are as many entries in both, and each entry of either
has the value of an entry of the other. -/
structure SameWords (a b : List LexiconEntry) : Prop where
  /-- There are as many entries in both. -/
  length_eq : a.length = b.length
  /-- The entries of the first are entries of the second. -/
  left : ∀ e ∈ a, ∃ e' ∈ b, e.sameValue e' = true
  /-- The entries of the second are entries of the first. -/
  right : ∀ e ∈ b, ∃ e' ∈ a, e.sameValue e' = true

theorem exists_sameValue_iff {entries : List LexiconEntry} {e : LexiconEntry} :
    (∃ e' ∈ entries, e.sameValue e' = true) ↔ e.value ∈ entries.map value := by
  simp only [sameValue_iff, List.mem_map]
  exact exists_congr fun e' ↦ and_congr_right fun _ ↦ eq_comm

/-- Lexicons without repetitions have the same words if they have the same values. -/
theorem sameWords_of_nodup {a b : List LexiconEntry} (ha : (a.map value).Nodup)
    (hb : (b.map value).Nodup) (h : ∀ v, v ∈ a.map value ↔ v ∈ b.map value) : SameWords a b where
  length_eq := by
    have hperm : (a.map value).Perm (b.map value) := (List.perm_ext_iff_of_nodup ha hb).2 h
    simpa using hperm.length_eq
  left := fun e he ↦ exists_sameValue_iff.2 ((h _).1 (List.mem_map_of_mem he))
  right := fun e he ↦ exists_sameValue_iff.2 ((h _).2 (List.mem_map_of_mem he))

/-! ## Tidy lexicons

Every lexicon of a document is made by deduplication followed by sorting. -/

section Tidied

variable (o : LexicalOrder) {entries : List LexiconEntry}

theorem mem_of_mem_tidied {e : LexiconEntry} (h : e ∈ o.sortEntries (dedupLexicon entries)) :
    e ∈ entries :=
  mem_of_mem_dedupLexicon ((LexicalOrder.mem_sortEntries o).1 h)

theorem nodup_tidied (entries : List LexiconEntry) :
    ((o.sortEntries (dedupLexicon entries)).map value).Nodup :=
  ((LexicalOrder.perm_sortEntries o _).map value).nodup_iff.2 (nodup_dedupFrom [] entries)

@[simp]
theorem mem_values_tidied {v : Value} :
    v ∈ (o.sortEntries (dedupLexicon entries)).map value ↔ v ∈ entries.map value :=
  ((LexicalOrder.perm_sortEntries o _).map value).mem_iff.trans mem_values_dedupLexicon

/-- Entries whose values are all there already add nothing to what has been tidied. -/
theorem tidied_append_of_forall {more : List LexiconEntry}
    (h : ∀ e ∈ more, e.value ∈ entries.map value) :
    o.sortEntries (dedupLexicon (o.sortEntries (dedupLexicon entries) ++ more))
      = o.sortEntries (dedupLexicon entries) := by
  have hseen : ∀ e ∈ more, e.value ∈ (o.sortEntries (dedupLexicon entries)).map value :=
    fun e he ↦ (mem_values_tidied o).2 (h e he)
  rw [dedupLexicon_append, dedupLexicon_of_nodup (nodup_tidied o entries),
    dedupFrom_eq_nil hseen, List.append_nil]
  exact LexicalOrder.sortEntries_of_pairwise o (LexicalOrder.pairwise_sortEntries o _)

theorem tidied_tidied (entries : List LexiconEntry) :
    o.sortEntries (dedupLexicon (o.sortEntries (dedupLexicon entries)))
      = o.sortEntries (dedupLexicon entries) := by
  have hnone := @tidied_append_of_forall o entries [] (List.forall_mem_nil _)
  rwa [List.append_nil] at hnone

/-- What is put after other entries can be told from them again by a property that it lacks and they
have: it displaced none of them. -/
theorem filter_tidied_append {p : LexiconEntry → Bool} {a b : List LexiconEntry}
    (ha : ∀ e ∈ a, p e = true) (hb : ∀ e ∈ b, p e = false) :
    (o.sortEntries (dedupLexicon (a ++ b))).filter p = o.sortEntries (dedupLexicon a) := by
  have hkept : (dedupLexicon a).filter p = dedupLexicon a := by
    rw [List.filter_eq_self]
    exact fun e he ↦ ha e (mem_of_mem_dedupLexicon he)
  have hdropped : (dedupFrom (a.map value) b).filter p = [] := by
    rw [List.filter_eq_nil_iff]
    intro e he
    rw [hb e ((dedupFrom_sublist _ b).subset he)]
    exact Bool.false_ne_true
  rw [LexicalOrder.filter_sortEntries, dedupLexicon_append, List.filter_append, hkept, hdropped,
    List.append_nil]

theorem sameWords_tidied {a b : List LexiconEntry} (o' : LexicalOrder)
    (h : ∀ v, v ∈ a.map value ↔ v ∈ b.map value) :
    SameWords (o.sortEntries (dedupLexicon a)) (o'.sortEntries (dedupLexicon b)) :=
  sameWords_of_nodup (nodup_tidied o a) (nodup_tidied o' b) fun v ↦ by
    rw [mem_values_tidied, mem_values_tidied, h]

end Tidied

end Glossopoeia
