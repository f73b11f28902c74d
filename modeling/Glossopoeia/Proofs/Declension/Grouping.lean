import Glossopoeia.Proofs.Declension.Absorption
import Glossopoeia.Proofs.GrammarTable.Groups

/-!
# Forms grouped by sound

What is kept of many forms is grouped by sound.  The loop that does it puts one form after the other
into the group of its sound, so at each point its groups are those of the forms so far: one for each
sound, in the order in which the sounds come up first, with what absorption leaves of them
(`foldl_insertInto_eq`).  Absorption within a group is a loop of its own (`unabsorbed`), which knows
nothing of sounds.

So `dedup` is these groups one after the other (`dedup_eq_flatMap`).  What it keeps has the same
sounds in the same order (`sounds_dedup`), and a group that absorption has been through is left as
it is (`unabsorbed_eq_self`), so a second run has nothing to do.
-/

set_option autoImplicit false

namespace Glossopoeia

/-- Distinct keys are what is left of them if each comes several times in a row. -/
theorem eraseDups_flatMap {κ : Type} [DecidableEq κ] {keys : List κ} (hkeys : keys.Nodup)
    {f : κ → List κ} (hf : ∀ key ∈ keys, f key ≠ [] ∧ ∀ k ∈ f key, k = key) :
    (keys.flatMap f).eraseDups = keys := by
  induction keys with
  | nil => rfl
  | cons key rest ih =>
    obtain ⟨hkey, hrest⟩ := List.nodup_cons.1 hkeys
    obtain ⟨⟨hne, hall⟩, hothers⟩ := List.forall_mem_cons.1 hf
    obtain ⟨k, more, hmore⟩ := List.exists_cons_of_ne_nil hne
    obtain rfl : k = key := hall k (hmore ▸ List.mem_cons_self ..)
    have hsame : more.filter (fun b ↦ !b == k) = [] :=
      List.filter_eq_nil_iff.2 fun b hb ↦ by simp [hall b (hmore ▸ List.mem_cons_of_mem _ hb)]
    have hapart : (rest.flatMap f).filter (fun b ↦ !b == k) = rest.flatMap f := by
      refine List.filter_eq_self.2 fun b hb ↦ ?_
      obtain ⟨key, hmem, hb⟩ := List.mem_flatMap.1 hb
      rw [(hothers key hmem).2 b hb]
      have hne : key ≠ k := fun heq ↦ hkey (heq ▸ hmem)
      simpa using hne
    rw [List.flatMap_cons, hmore, List.cons_append, List.eraseDups_cons, List.filter_append, hsame,
      hapart, List.nil_append, ih hrest hothers]

namespace Variant

variable {v : Variant} {forms variants : List Variant} {sound : List Char}

/-! ## Within a group -/

/-- A group with one more form, unless a form in it absorbs that one. -/
def keep (group : List Variant) (v : Variant) : List Variant :=
  if group.any (isAbsorbed · v) then group else group ++ [v]

/-- The forms of a group that those kept before them do not absorb. -/
def unabsorbed (forms : List Variant) : List Variant := forms.foldl keep []

theorem unabsorbed_append_singleton (forms : List Variant) (v : Variant) :
    unabsorbed (forms ++ [v]) = keep (unabsorbed forms) v := by
  rw [unabsorbed, List.foldl_append]
  rfl

theorem unabsorbed_sublist (forms : List Variant) : (unabsorbed forms).Sublist forms := by
  induction forms using List.reverseRecOn with
  | nil => exact .refl _
  | append_singleton forms v ih =>
    rw [unabsorbed_append_singleton, keep]
    split
    · exact ih.trans (List.sublist_append_left ..)
    · exact ih.append_right [v]

/-- The first form of a group is always kept. -/
theorem unabsorbed_ne_nil (h : forms ≠ []) : unabsorbed forms ≠ [] := by
  induction forms using List.reverseRecOn with
  | nil => exact absurd rfl h
  | append_singleton forms v =>
    rw [unabsorbed_append_singleton, keep]
    split
    · next habsorbed =>
      obtain ⟨kept, hkept, -⟩ := List.any_eq_true.1 habsorbed
      exact List.ne_nil_of_mem hkept
    · exact List.concat_ne_nil v _

/-- Forms that do not absorb each other are all kept. -/
theorem unabsorbed_eq_self (h : forms.Pairwise fun a b ↦ isAbsorbed a b = false) :
    unabsorbed forms = forms := by
  induction forms using List.reverseRecOn with
  | nil => rfl
  | append_singleton forms v ih =>
    obtain ⟨hforms, -, hlast⟩ := List.pairwise_append.1 h
    have hnone : forms.any (isAbsorbed · v) = false :=
      List.any_eq_false.2 fun a ha ↦
        Bool.not_eq_true _ ▸ hlast a ha v (List.mem_singleton_self v)
    rw [unabsorbed_append_singleton, ih hforms, keep, hnone, if_neg Bool.false_ne_true]

/-! ## The groups -/

/-- The forms, each with its sound. -/
def bySound (variants : List Variant) : List (List Char × Variant) :=
  variants.map fun v ↦ (v.phonetic, v)

/-- The sounds of the forms, in the order in which they come up first. -/
def sounds (variants : List Variant) : List (List Char) := keysOf (bySound variants)

theorem nodup_sounds (variants : List Variant) : (sounds variants).Nodup := nodup_keysOf _

/-- The forms of a sound, in order. -/
def ofSound (sound : List Char) (variants : List Variant) : List Variant :=
  variants.filter fun v ↦ v.phonetic = sound

theorem valuesOf_bySound (sound : List Char) (variants : List Variant) :
    valuesOf sound (bySound variants) = ofSound sound variants := by
  rw [valuesOf, bySound, List.filter_map, List.map_map]
  exact List.map_id _

theorem sounds_append_singleton (variants : List Variant) (v : Variant) :
    sounds (variants ++ [v])
      = sounds variants ++ if v.phonetic ∈ sounds variants then [] else [v.phonetic] := by
  rw [sounds, bySound, List.map_append]
  refine (keysOf_append_singleton (bySound variants) v.phonetic v).trans ?_
  congr

theorem ofSound_eq_nil (h : sound ∉ sounds variants) : ofSound sound variants = [] := by
  rw [← valuesOf_bySound]
  exact valuesOf_eq_nil h

theorem phonetic_of_mem_ofSound (h : v ∈ ofSound sound variants) : v.phonetic = sound := by
  simpa using (List.mem_filter.1 h).2

theorem ofSound_ne_nil (h : sound ∈ sounds variants) : ofSound sound variants ≠ [] := by
  obtain ⟨item, hitem, rfl⟩ := mem_keysOf.1 h
  obtain ⟨v, hv, rfl⟩ := List.mem_map.1 hitem
  exact List.ne_nil_of_mem (List.mem_filter.2 ⟨hv, by simp⟩)

/-- What becomes of groups of different sounds when a form comes. -/
theorem insertInto_map {sounds : List (List Char)} (hsounds : sounds.Nodup)
    {group : List Char → List Variant}
    (hgroup : ∀ s ∈ sounds, group s ≠ [] ∧ ∀ w ∈ group s, w.phonetic = s) (v : Variant) :
    insertInto v (sounds.map group)
      = (sounds.map fun s ↦ if v.phonetic = s then keep (group s) v else group s)
        ++ if v.phonetic ∈ sounds then [] else [[v]] := by
  induction sounds with
  | nil => rfl
  | cons s rest ih =>
    obtain ⟨hs, hrest⟩ := List.nodup_cons.1 hsounds
    obtain ⟨⟨hne, hsound⟩, hothers⟩ := List.forall_mem_cons.1 hgroup
    have hhead : (group s).head?.any (·.phonetic == v.phonetic) = decide (v.phonetic = s) := by
      obtain ⟨w, more, hw⟩ := List.exists_cons_of_ne_nil hne
      rw [hw, List.head?_cons, Option.any_some, hsound w (hw ▸ List.mem_cons_self ..),
        Bool.eq_iff_iff, beq_iff_eq, decide_eq_true_iff, eq_comm]
    rw [List.map_cons, insertInto, hhead]
    by_cases h : v.phonetic = s
    · -- This is the group of the form, and no later one is.
      have hmap : (rest.map fun s' ↦ if v.phonetic = s' then keep (group s') v else group s')
          = rest.map group := List.map_congr_left fun s' hs' ↦
        if_neg fun heq ↦ hs (h.symm.trans heq ▸ hs')
      have hmem : v.phonetic ∈ s :: rest := h ▸ List.mem_cons_self ..
      rw [List.map_cons, hmap, if_pos (decide_eq_true h), if_pos h, if_pos hmem, List.append_nil]
      rfl
    · simp [h, ih hrest hothers]

/-- **The loop keeps the groups of the forms so far.** -/
theorem foldl_insertInto_eq (variants : List Variant) :
    variants.foldl (fun groups v ↦ insertInto v groups) []
      = (sounds variants).map fun s ↦ unabsorbed (ofSound s variants) := by
  induction variants using List.reverseRecOn with
  | nil => rfl
  | append_singleton variants v ih =>
    have hgroup : ∀ s ∈ sounds variants, unabsorbed (ofSound s variants) ≠ [] ∧
        ∀ w ∈ unabsorbed (ofSound s variants), w.phonetic = s := fun s hs ↦
      ⟨unabsorbed_ne_nil (ofSound_ne_nil hs), fun w hw ↦
        phonetic_of_mem_ofSound ((unabsorbed_sublist _).subset hw)⟩
    have hvalues (s : List Char) : unabsorbed (ofSound s (variants ++ [v]))
        = if v.phonetic = s then keep (unabsorbed (ofSound s variants)) v
          else unabsorbed (ofSound s variants) := by
      rw [ofSound, List.filter_append]
      by_cases h : v.phonetic = s
      · rw [if_pos h, List.filter_cons_of_pos (by simpa using h), List.filter_nil,
          unabsorbed_append_singleton]
        rfl
      · rw [if_neg h, List.filter_cons_of_neg (by simpa using h), List.filter_nil,
          List.append_nil]
        rfl
    rw [List.foldl_append, List.foldl_cons, List.foldl_nil, ih,
      insertInto_map (nodup_sounds variants) hgroup, sounds_append_singleton, List.map_append]
    simp only [hvalues]
    congr 1
    by_cases h : v.phonetic ∈ sounds variants
    · rw [if_pos h, if_pos h]
      rfl
    · -- The new group holds this form alone.
      rw [if_neg h, if_neg h, List.map_singleton, if_pos rfl, ofSound_eq_nil h]
      rfl

/-- **What is kept**, sound by sound. -/
theorem dedup_eq_flatMap (variants : List Variant) :
    dedup variants = (sounds variants).flatMap fun s ↦ unabsorbed (ofSound s variants) := by
  rw [dedup_eq_flatten, foldl_insertInto_eq, List.flatMap_def]

/-- The forms of a sound that are kept are those that absorption leaves of its group. -/
theorem ofSound_dedup (sound : List Char) (variants : List Variant) :
    ofSound sound (dedup variants) = unabsorbed (ofSound sound variants) := by
  have hgroup (s : List Char) : (unabsorbed (ofSound s variants)).filter
      (fun v ↦ decide (v.phonetic = sound))
        = if s = sound then unabsorbed (ofSound s variants) else [] := by
    have hsound : ∀ v ∈ unabsorbed (ofSound s variants), v.phonetic = s := fun v hv ↦
      phonetic_of_mem_ofSound ((unabsorbed_sublist _).subset hv)
    split
    · next h => exact List.filter_eq_self.2 fun v hv ↦ by simp [hsound v hv, h]
    · next h => exact List.filter_eq_nil_iff.2 fun v hv ↦ by simp [hsound v hv, h]
  rw [dedup_eq_flatMap, ofSound, List.filter_flatMap]
  simp only [hgroup]
  refine (flatMap_ite_eq (nodup_sounds variants) fun s ↦ unabsorbed (ofSound s variants)).trans ?_
  split
  · rfl
  · next h =>
    rw [ofSound_eq_nil h]
    rfl

/-- What is kept has the same sounds in the same order. -/
theorem sounds_dedup (variants : List Variant) : sounds (dedup variants) = sounds variants := by
  have hmap : (bySound (dedup variants)).map Prod.fst
      = (sounds variants).flatMap fun s ↦ (unabsorbed (ofSound s variants)).map phonetic := by
    rw [bySound, List.map_map, dedup_eq_flatMap, List.map_flatMap]
    rfl
  rw [sounds, keysOf, hmap]
  refine eraseDups_flatMap (nodup_sounds variants) fun s hs ↦ ⟨?_, ?_⟩
  · simpa using unabsorbed_ne_nil (ofSound_ne_nil hs)
  · rw [List.forall_mem_map]
    exact fun v hv ↦ phonetic_of_mem_ofSound ((unabsorbed_sublist _).subset hv)

/-- **What is kept of many forms.**  No form that is kept absorbs another, that is, of two with one
sound and one part of speech the labels differ within the shorter list; every form is absorbed by
one that is kept; those that are kept are among the forms, the ones of a sound together and in
order, and the sounds in the order in which they come up first; and of what is kept all is kept. -/
theorem dedup_grouped (variants : List Variant) :
    (dedup variants).Pairwise (fun a b ↦ ¬Absorbs a b) ∧
      (∀ v ∈ variants, ∃ kept ∈ dedup variants, Absorbs kept v) ∧
      ((∀ v ∈ dedup variants, v ∈ variants) ∧
        dedup variants = (sounds variants).flatMap (ofSound · (dedup variants)) ∧
        ∀ sound, (ofSound sound (dedup variants)).Sublist (ofSound sound variants)) ∧
      dedup (dedup variants) = dedup variants := by
  have hgroups : dedup variants = (sounds variants).flatMap (ofSound · (dedup variants)) := by
    simp only [ofSound_dedup]
    exact dedup_eq_flatMap variants
  have hsublist (sound : List Char) :
      (ofSound sound (dedup variants)).Sublist (ofSound sound variants) := by
    rw [ofSound_dedup]
    exact unabsorbed_sublist _
  refine ⟨pairwise_dedup variants, fun v ↦ exists_absorbs_of_mem,
    ⟨fun v ↦ mem_of_mem_dedup, hgroups, hsublist⟩, ?_⟩
  have hkept (sound : List Char) : unabsorbed (ofSound sound (dedup variants))
      = ofSound sound (dedup variants) := by
    refine unabsorbed_eq_self (((pairwise_dedup variants).filter _).imp_of_mem ?_)
    intro a b ha hb hnot
    have hsound : a.phonetic = b.phonetic :=
      (phonetic_of_mem_ofSound ha).trans (phonetic_of_mem_ofSound hb).symm
    exact Bool.eq_false_iff.2 fun habsorbed ↦ hnot (absorbs_iff.2 ⟨hsound, habsorbed⟩)
  rw [dedup_eq_flatMap (dedup variants), sounds_dedup]
  simp only [hkept]
  exact hgroups.symm

end Variant

end Glossopoeia
