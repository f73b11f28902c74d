import Mathlib.Data.List.Infix
import Glossopoeia.Proofs.Declension.SoundGroups

/-!
# Forms that absorb others

Declension makes many a form more than once, and keeps each form only if none that is kept already
absorbs it.  `dedup` groups what it keeps by sound, and looks for an absorbing form in one group
only, which it might as well look for without its table (`dedup_eq_flatten`).  Since no two groups
sound alike (`IsGrouped`), this is as good as looking at everything that is kept, and up to the
grouping `dedup` does one of two things with a form that comes last (`dedup_concat`): it drops the
form if a kept one absorbs it, and otherwise adds it.

What is said of `dedup` here follows from that by induction from the end of the list:

* every form is absorbed by one that is kept (`exists_absorbs_of_mem`), and those that are kept do
  not absorb each other (`pairwise_dedup`);
* a form that is kept was absorbed by none of those kept before it came
  (`exists_before_of_mem_dedup`).
-/

set_option autoImplicit false

namespace Glossopoeia.Variant

/-! ## Labels that agree -/

theorem labelsAgree_iff {a b : List String} :
    labelsAgree a b = true ↔ ∀ pair ∈ a.zip b, pair.1 = pair.2 := by
  induction a generalizing b with
  | nil => simp [labelsAgree]
  | cons x a ih =>
    cases b with
    | nil => simp [labelsAgree]
    | cons y b => simp [labelsAgree, ih]

/-- Labels that agree as far as both go are the beginning of one another. -/
theorem labelsAgree_iff_isPrefix_or {a b : List String} :
    labelsAgree a b = true ↔ a <+: b ∨ b <+: a := by
  induction a generalizing b with
  | nil => simp [labelsAgree]
  | cons x a ih =>
    cases b with
    | nil => simp [labelsAgree]
    | cons y b =>
      simp only [labelsAgree, Bool.and_eq_true, beq_iff_eq, ih, List.cons_prefix_cons]
      grind

/-! ## Absorption -/

/-- The form that is kept sounds like the other one and absorbs it. -/
structure Absorbs (kept v : Variant) : Prop where
  /-- They sound alike. -/
  phonetic : kept.phonetic = v.phonetic
  /-- They have the same part of speech. -/
  partOfSpeech : kept.partOfSpeech = v.partOfSpeech
  /-- Their labels agree. -/
  labels : labelsAgree kept.declension v.declension = true

variable {v w kept : Variant}

theorem Absorbs.refl (v : Variant) : Absorbs v v where
  phonetic := rfl
  partOfSpeech := rfl
  labels := labelsAgree_iff_isPrefix_or.2 (.inl (List.prefix_refl _))

theorem Absorbs.symm (h : Absorbs v w) : Absorbs w v where
  phonetic := h.phonetic.symm
  partOfSpeech := h.partOfSpeech.symm
  labels := labelsAgree_iff_isPrefix_or.2 (labelsAgree_iff_isPrefix_or.1 h.labels).symm

theorem absorbs_iff : Absorbs kept v ↔ kept.phonetic = v.phonetic ∧ isAbsorbed kept v = true := by
  rw [isAbsorbed, Bool.and_eq_true, beq_iff_eq]
  exact ⟨fun h ↦ ⟨h.phonetic, h.partOfSpeech, h.labels⟩, fun h ↦ ⟨h.1, h.2.1, h.2.2⟩⟩

/-! ## Groups -/

/-- The forms of a group sound alike. -/
def SoundAlike (groups : List (List Variant)) : Prop :=
  ∀ group ∈ groups, ∀ a ∈ group, ∀ b ∈ group, a.phonetic = b.phonetic

/-- The forms of a group sound alike, and those of two groups do not. -/
structure IsGrouped (groups : List (List Variant)) : Prop where
  /-- Within a group. -/
  alike : SoundAlike groups
  /-- Between groups. -/
  apart : groups.Pairwise fun group group' ↦
    ∀ a ∈ group, ∀ b ∈ group', a.phonetic ≠ b.phonetic

theorem IsGrouped.tail {group : List Variant} {rest : List (List Variant)}
    (h : IsGrouped (group :: rest)) : IsGrouped rest :=
  ⟨(List.forall_mem_cons.1 h.alike).2, h.apart.of_cons⟩

variable {groups : List (List Variant)}

/-- The first form of a group speaks for all of it. -/
theorem head?_any_iff {group : List Variant}
    (h : ∀ a ∈ group, ∀ b ∈ group, a.phonetic = b.phonetic) :
    group.head?.any (·.phonetic == v.phonetic) = true ↔ ∃ a ∈ group, a.phonetic = v.phonetic := by
  cases group with
  | nil => simp
  | cons head tail =>
    simp only [List.head?_cons, Option.any_some, beq_iff_eq]
    refine ⟨fun hhead ↦ ⟨head, List.mem_cons_self .., hhead⟩, ?_⟩
    rintro ⟨a, ha, hsound⟩
    exact (h head (List.mem_cons_self ..) a ha).trans hsound

theorem mem_flatten_insertInto (h : w ∈ (insertInto v groups).flatten) :
    w = v ∨ w ∈ groups.flatten := by
  induction groups with
  | nil => exact .inl (by simpa [insertInto] using h)
  | cons group rest ih =>
    rw [insertInto] at h
    split at h
    · split at h
      · exact .inr h
      · simp only [List.flatten_cons, List.mem_append, List.mem_singleton] at h ⊢
        tauto
    · simp only [List.flatten_cons, List.mem_append] at h ⊢
      tauto

/-- Groups stay groups. -/
theorem IsGrouped.insertInto (h : IsGrouped groups) (v : Variant) :
    IsGrouped (insertInto v groups) := by
  induction groups with
  | nil => exact ⟨by simp [SoundAlike, Variant.insertInto], List.pairwise_singleton _ _⟩
  | cons group rest ih =>
    obtain ⟨hgroup, hrest⟩ := List.forall_mem_cons.1 h.alike
    have hhead := head?_any_iff (v := v) hgroup
    rw [Variant.insertInto]
    split
    · next hany =>
      split
      · exact h
      · obtain ⟨a, ha, hsound⟩ := hhead.1 hany
        have hall : ∀ b ∈ group ++ [v], b.phonetic = a.phonetic := by
          rw [List.forall_mem_append, List.forall_mem_singleton]
          exact ⟨fun b hb ↦ hgroup b hb a ha, hsound.symm⟩
        refine ⟨List.forall_mem_cons.2 ⟨fun b hb c hc ↦ (hall b hb).trans (hall c hc).symm, hrest⟩,
          List.pairwise_cons.2 ⟨fun group' hgroup' b hb c hc ↦ ?_, h.apart.of_cons⟩⟩
        rw [hall b hb]
        exact List.rel_of_pairwise_cons h.apart hgroup' a ha c hc
    · next hany =>
      have htail := ih h.tail
      refine ⟨List.forall_mem_cons.2 ⟨hgroup, htail.alike⟩,
        List.pairwise_cons.2 ⟨fun group' hgroup' a ha b hb ↦ ?_, htail.apart⟩⟩
      rcases mem_flatten_insertInto (List.mem_flatten_of_mem hgroup' hb) with rfl | hb
      · exact fun hsound ↦ hany (hhead.2 ⟨a, ha, hsound⟩)
      · obtain ⟨other, hother, hb⟩ := List.mem_flatten.1 hb
        exact List.rel_of_pairwise_cons h.apart hother a ha b hb

/-- A form that a kept one absorbs changes nothing. -/
theorem insertInto_of_absorbs (h : IsGrouped groups) (hkept : kept ∈ groups.flatten)
    (habsorbs : Absorbs kept v) : insertInto v groups = groups := by
  induction groups with
  | nil => exact absurd hkept List.not_mem_nil
  | cons group rest ih =>
    have hhead := head?_any_iff (v := v) (List.forall_mem_cons.1 h.alike).1
    rw [List.flatten_cons, List.mem_append] at hkept
    rw [insertInto]
    split
    · next hany =>
      -- The absorbing form is in this group, as no other sounds like it.
      obtain ⟨a, ha, hsound⟩ := hhead.1 hany
      have hgroup : kept ∈ group := by
        refine hkept.resolve_right fun hrest ↦ ?_
        obtain ⟨other, hother, hkept⟩ := List.mem_flatten.1 hrest
        exact List.rel_of_pairwise_cons h.apart hother a ha kept hkept
          (hsound.trans habsorbs.phonetic.symm)
      rw [if_pos (List.any_eq_true.2 ⟨kept, hgroup, (absorbs_iff.1 habsorbs).2⟩)]
    · next hany =>
      have hrest : kept ∈ rest.flatten :=
        hkept.resolve_left fun hgroup ↦ hany (hhead.2 ⟨kept, hgroup, habsorbs.phonetic⟩)
      rw [ih h.tail hrest]

/-- A form that no kept one absorbs is kept. -/
theorem perm_insertInto (h : IsGrouped groups)
    (hnone : ∀ kept ∈ groups.flatten, ¬Absorbs kept v) :
    (insertInto v groups).flatten.Perm (v :: groups.flatten) := by
  induction groups with
  | nil => simp [insertInto]
  | cons group rest ih =>
    obtain ⟨hgroup, -⟩ := List.forall_mem_cons.1 h.alike
    rw [List.flatten_cons, List.forall_mem_append] at hnone
    rw [insertInto]
    split
    · next hany =>
      obtain ⟨a, ha, hsound⟩ := (head?_any_iff hgroup).1 hany
      have hfalse : ¬group.any (isAbsorbed · v) = true := by
        rw [List.any_eq_true]
        rintro ⟨kept, hkept, habsorbed⟩
        exact hnone.1 kept hkept
          (absorbs_iff.2 ⟨(hgroup kept hkept a ha).trans hsound, habsorbed⟩)
      rw [if_neg hfalse]
      simp [List.perm_middle]
    · rw [List.flatten_cons, List.flatten_cons]
      exact ((ih h.tail hnone.2).append_left group).trans List.perm_middle

/-! ## What is kept -/

theorem isGrouped_foldl_insertInto (variants : List Variant) :
    IsGrouped (variants.foldl (fun groups v ↦ insertInto v groups) []) :=
  List.foldlRecOn (motive := IsGrouped) variants _ ⟨by simp [SoundAlike], .nil⟩
    fun _ h v _ ↦ h.insertInto v

/-- **What happens to a form that comes last**: it is absorbed by one that is kept, or is kept
itself. -/
theorem dedup_concat (variants : List Variant) (v : Variant) :
    (∃ kept ∈ dedup variants, Absorbs kept v) ∧ dedup (variants ++ [v]) = dedup variants ∨
      (∀ kept ∈ dedup variants, ¬Absorbs kept v) ∧
        (dedup (variants ++ [v])).Perm (v :: dedup variants) := by
  have hgrouped := isGrouped_foldl_insertInto variants
  rw [dedup_eq_flatten, dedup_eq_flatten, List.foldl_append, List.foldl_cons, List.foldl_nil]
  generalize variants.foldl (fun groups v ↦ insertInto v groups) [] = groups at hgrouped ⊢
  by_cases h : ∃ kept ∈ groups.flatten, Absorbs kept v
  · obtain ⟨kept, hkept, habsorbs⟩ := h
    rw [insertInto_of_absorbs hgrouped hkept habsorbs]
    exact .inl ⟨⟨kept, hkept, habsorbs⟩, rfl⟩
  · have hnone : ∀ kept ∈ groups.flatten, ¬Absorbs kept v := by simpa using h
    exact .inr ⟨hnone, perm_insertInto hgrouped hnone⟩

variable {variants : List Variant}

theorem mem_of_mem_dedup (h : v ∈ dedup variants) : v ∈ variants := by
  induction variants using List.reverseRecOn with
  | nil => exact absurd h List.not_mem_nil
  | append_singleton variants w ih =>
    rcases dedup_concat variants w with ⟨-, heq⟩ | ⟨-, hperm⟩
    · exact List.mem_append_left _ (ih (heq ▸ h))
    · rcases List.mem_cons.1 (hperm.mem_iff.1 h) with rfl | h
      · simp
      · exact List.mem_append_left _ (ih h)

/-- What is kept stays when more forms come. -/
theorem dedup_subset_append (variants more : List Variant) :
    dedup variants ⊆ dedup (variants ++ more) := by
  induction more using List.reverseRecOn with
  | nil => simp
  | append_singleton more w ih =>
    rw [← List.append_assoc]
    rcases dedup_concat (variants ++ more) w with ⟨-, heq⟩ | ⟨-, hperm⟩
    · exact heq ▸ ih
    · exact fun v hv ↦ hperm.mem_iff.2 (List.mem_cons_of_mem _ (ih hv))

/-- **Every form is absorbed by one that is kept.** -/
theorem exists_absorbs_of_mem (h : v ∈ variants) : ∃ kept ∈ dedup variants, Absorbs kept v := by
  obtain ⟨before, after, rfl⟩ := List.append_of_mem h
  have hlast : ∃ kept ∈ dedup (before ++ [v]), Absorbs kept v := by
    rcases dedup_concat before v with ⟨habsorbs, heq⟩ | ⟨-, hperm⟩
    · exact heq ▸ habsorbs
    · exact ⟨v, hperm.mem_iff.2 (List.mem_cons_self ..), .refl v⟩
  obtain ⟨kept, hkept, habsorbs⟩ := hlast
  refine ⟨kept, ?_, habsorbs⟩
  have hmore := dedup_subset_append (before ++ [v]) after hkept
  rwa [List.append_assoc] at hmore

/-- Forms that are kept do not absorb each other. -/
theorem pairwise_dedup (variants : List Variant) :
    (dedup variants).Pairwise fun a b ↦ ¬Absorbs a b := by
  induction variants using List.reverseRecOn with
  | nil => exact .nil
  | append_singleton variants v ih =>
    rcases dedup_concat variants v with ⟨-, heq⟩ | ⟨hnone, hperm⟩
    · exact heq ▸ ih
    · refine (hperm.pairwise_iff fun h habsorbs ↦ h habsorbs.symm).2 (List.pairwise_cons.2 ⟨?_, ih⟩)
      exact fun kept hkept habsorbs ↦ hnone kept hkept habsorbs.symm

theorem nodup_dedup (variants : List Variant) : (dedup variants).Nodup := by
  refine (pairwise_dedup variants).imp ?_
  rintro a _ h rfl
  exact h (.refl a)

/-- **A form that is kept was absorbed by none of those kept before it came.** -/
theorem exists_before_of_mem_dedup (h : v ∈ dedup variants) :
    ∃ before after, variants = before ++ v :: after ∧
      ∀ kept ∈ dedup before, ¬Absorbs kept v := by
  induction variants using List.reverseRecOn with
  | nil => exact absurd h List.not_mem_nil
  | append_singleton variants w ih =>
    have hearlier : v ∈ dedup variants → ∃ before after,
        variants ++ [w] = before ++ v :: after ∧ ∀ kept ∈ dedup before, ¬Absorbs kept v := by
      intro h
      obtain ⟨before, after, heq, hnone⟩ := ih h
      exact ⟨before, after ++ [w], by simp [heq], hnone⟩
    rcases dedup_concat variants w with ⟨-, heq⟩ | ⟨hnone, hperm⟩
    · exact hearlier (heq ▸ h)
    · rcases List.mem_cons.1 (hperm.mem_iff.1 h) with rfl | h
      · exact ⟨variants, [], rfl, hnone⟩
      · exact hearlier h

end Glossopoeia.Variant
