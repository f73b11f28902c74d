import Glossopoeia.Declension.Decliner

/-!
# Groups of forms without their table

A form that comes is put into the group of its sound, which a table of sounds tells.  Without the
table the group has to be looked for among all groups, from the first one on (`insertInto`).  The
table is that of the groups, so it tells the only group of the sound, and both ways lead to the same
groups (`groups_insert`).  So what is said of `dedup` is proved for lists of groups
(`dedup_eq_flatten`).
-/

set_option autoImplicit false

namespace Glossopoeia

namespace Variant

/-- Put a form into the first group whose first form sounds like it, unless one of that group
absorbs it; a form that sounds like none opens a group. -/
def insertInto (v : Variant) : List (List Variant) → List (List Variant)
  | [] => [[v]]
  | group :: rest =>
    if group.head?.any (·.phonetic == v.phonetic) then
      (if group.any (isAbsorbed · v) then group else group ++ [v]) :: rest
    else group :: insertInto v rest

variable {v : Variant} {groups : List (List Variant)}

theorem head?_any_eq_true_iff {group : List Variant} :
    group.head?.any (·.phonetic == v.phonetic) = true ↔ soundOf? group = some v.phonetic := by
  cases group with
  | nil => simp [soundOf?]
  | cons first rest => simp [soundOf?]

/-- What becomes of the groups if the first one of the sound stands at a place. -/
theorem insertInto_of_getElem? {place : Nat} {group : List Variant}
    (hgroup : groups[place]? = some group) (hsound : soundOf? group = some v.phonetic)
    (hbefore : ∀ i < place, groups[i]?.bind soundOf? ≠ some v.phonetic) :
    insertInto v groups
      = if group.any (isAbsorbed · v) then groups else groups.set place (group ++ [v]) := by
  induction groups generalizing place with
  | nil => cases hgroup
  | cons first rest ih =>
    rw [insertInto]
    cases place with
    | zero =>
      cases hgroup
      rw [if_pos (head?_any_eq_true_iff.2 hsound), List.set_cons_zero]
      split <;> rfl
    | succ place =>
      have hfirst : soundOf? first ≠ some v.phonetic := hbefore 0 (Nat.succ_pos place)
      have hrest : ∀ i < place, rest[i]?.bind soundOf? ≠ some v.phonetic := fun i hi ↦
        hbefore (i + 1) (Nat.succ_lt_succ hi)
      rw [if_neg (mt head?_any_eq_true_iff.1 hfirst), ih hgroup hrest, List.set_cons_succ]
      split <;> rfl

/-- What becomes of the groups if none is of the sound. -/
theorem insertInto_of_forall_ne (h : ∀ group ∈ groups, soundOf? group ≠ some v.phonetic) :
    insertInto v groups = groups ++ [[v]] := by
  induction groups with
  | nil => rfl
  | cons first rest ih =>
    obtain ⟨hfirst, hrest⟩ := List.forall_mem_cons.1 h
    rw [insertInto, if_neg (mt head?_any_eq_true_iff.1 hfirst), ih hrest, List.cons_append]

end Variant

namespace SoundGroups

open Variant

variable (g : SoundGroups)

theorem getElem?_groups {place : Nat} (h : place < g.groups.length) :
    g.groups[place]? = some (g.groupAt place h) :=
  List.getElem?_eq_getElem h

/-- **The table leads to the group that a search finds.** -/
theorem groups_insert (v : Variant) : (g.insert v).groups = Variant.insertInto v g.groups := by
  rw [insert]
  split
  · next place hplace =>
    have hlt := g.tells.lt_length hplace
    -- No earlier group is of the sound, as the table has one place for it.
    have hbefore : ∀ i < place, g.groups[i]?.bind soundOf? ≠ some v.phonetic := by
      intro i hi hsound
      have hsame := ((g.tells v.phonetic i).2 hsound).symm.trans hplace
      exact Nat.ne_of_lt hi (Option.some.inj hsame)
    rw [insertInto_of_getElem? (g.getElem?_groups hlt) (g.soundOf?_groupAt hplace) hbefore, extend]
    split <;> rfl
  · next hnone =>
    have hne : ∀ group ∈ g.groups, soundOf? group ≠ some v.phonetic := by
      intro group hgroup hsound
      obtain ⟨i, hi⟩ := List.mem_iff_getElem?.1 hgroup
      have hplace := (g.tells v.phonetic i).2 (by rw [hi, Option.bind_some, hsound])
      rw [hnone] at hplace
      cases hplace
    exact (insertInto_of_forall_ne hne).symm

theorem groups_foldl_insert (variants : List Variant) :
    (variants.foldl insert g).groups
      = variants.foldl (fun groups v ↦ Variant.insertInto v groups) g.groups := by
  induction variants generalizing g with
  | nil => rfl
  | cons v rest ih => rw [List.foldl_cons, ih, groups_insert, List.foldl_cons]

end SoundGroups

/-- What is kept, without a table. -/
theorem Variant.dedup_eq_flatten (variants : List Variant) :
    dedup variants = (variants.foldl (fun groups v ↦ insertInto v groups) []).flatten :=
  congrArg List.flatten (SoundGroups.empty.groups_foldl_insert variants)

end Glossopoeia
