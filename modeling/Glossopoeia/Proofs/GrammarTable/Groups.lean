import Mathlib.Data.List.Basic

/-!
# Items by their keys

Items that come with a key each make groups: one group for each key, in the order in which the keys
come up first, with what has that key in the order in which it comes (`groupsOf`).  No item gets
lost in this and none gets into two groups (`perm_flatMap_groupsOf`); one more item joins the group
of its key, or makes a new one at the end (`groupsOf_append_singleton`); and other names for the
keys give the same groups under other names (`groupsOf_map`).
-/

set_option autoImplicit false

namespace Glossopoeia

variable {κ κ' ρ : Type} [DecidableEq κ] [DecidableEq κ']

/-- The keys of items, in the order in which they come up first. -/
def keysOf (items : List (κ × ρ)) : List κ := (items.map Prod.fst).eraseDups

/-- What has the given key. -/
def valuesOf (key : κ) (items : List (κ × ρ)) : List ρ :=
  (items.filter fun item ↦ item.1 = key).map Prod.snd

/-- Items by their keys. -/
def groupsOf (items : List (κ × ρ)) : List (κ × List ρ) :=
  (keysOf items).map fun key ↦ (key, valuesOf key items)

/-! ## Keys -/

theorem nodup_eraseDups (keys : List κ) : keys.eraseDups.Nodup := by
  cases keys with
  | nil => exact List.nodup_nil
  | cons key rest =>
    rw [List.eraseDups_cons]
    exact List.nodup_cons.2 ⟨by simp, nodup_eraseDups _⟩
termination_by keys.length
decreasing_by exact Nat.lt_succ_of_le (List.length_filter_le ..)

/-- Names that tell the keys apart do not change which of them come up first. -/
theorem eraseDups_map {f : κ → κ'} : ∀ keys : List κ,
    (∀ a ∈ keys, ∀ b ∈ keys, f a = f b → a = b) → (keys.map f).eraseDups = keys.eraseDups.map f
  | [], _ => rfl
  | key :: rest, hf => by
    have hsubset : ∀ a ∈ rest.filter fun b ↦ !b == key, a ∈ key :: rest :=
      fun a ha ↦ List.mem_cons_of_mem _ (List.mem_filter.1 ha).1
    have hfilter : (rest.map f).filter (fun b ↦ !b == f key)
        = (rest.filter fun b ↦ !b == key).map f := by
      rw [List.filter_map]
      refine congrArg _ (List.filter_congr fun a ha ↦ ?_)
      have hiff : f a = f key ↔ a = key :=
        ⟨hf a (List.mem_cons_of_mem _ ha) key (List.mem_cons_self ..), congrArg f⟩
      rw [Bool.eq_iff_iff]
      simp [hiff]
    rw [List.map_cons, List.eraseDups_cons, List.eraseDups_cons, List.map_cons, hfilter,
      eraseDups_map _ fun a ha b hb ↦ hf a (hsubset a ha) b (hsubset b hb)]
termination_by keys => keys.length
decreasing_by exact Nat.lt_succ_of_le (List.length_filter_le ..)

/-- To leave some keys out does not change which of the others come up first. -/
theorem eraseDups_filter (p : κ → Bool) : ∀ keys : List κ,
    (keys.filter p).eraseDups = keys.eraseDups.filter p
  | [] => rfl
  | key :: rest => by
    have hrest := eraseDups_filter p (rest.filter fun b ↦ !b == key)
    rw [List.filter_filter] at hrest
    rw [List.eraseDups_cons]
    by_cases hp : p key = true
    · rw [List.filter_cons_of_pos hp, List.filter_cons_of_pos hp, List.eraseDups_cons,
        List.filter_filter, ← hrest]
      simp only [Bool.and_comm]
    · rw [List.filter_cons_of_neg hp, List.filter_cons_of_neg hp, ← hrest]
      -- What `p` holds of is not the key.
      refine congrArg _ (List.filter_congr fun b _ ↦ ?_)
      by_cases hb : b = key <;> simp [hb, hp]
termination_by keys => keys.length
decreasing_by exact Nat.lt_succ_of_le (List.length_filter_le ..)

theorem nodup_keysOf (items : List (κ × ρ)) : (keysOf items).Nodup := nodup_eraseDups _

theorem mem_keysOf {key : κ} {items : List (κ × ρ)} :
    key ∈ keysOf items ↔ ∃ item ∈ items, item.1 = key := by
  rw [keysOf, List.mem_eraseDups, List.mem_map]

theorem keysOf_append_singleton (items : List (κ × ρ)) (key : κ) (value : ρ) :
    keysOf (items ++ [(key, value)])
      = keysOf items ++ if key ∈ keysOf items then [] else [key] := by
  rw [keysOf, List.map_append, List.eraseDups_append, ← keysOf]
  congr 1
  by_cases h : key ∈ keysOf items
  · rw [if_pos h]
    simp [List.removeAll, List.mem_eraseDups.1 h]
  · rw [if_neg h]
    simp [List.removeAll, mt List.mem_eraseDups.2 h, List.eraseDups_cons]

/-! ## Values -/

@[simp] theorem valuesOf_append (key : κ) (items more : List (κ × ρ)) :
    valuesOf key (items ++ more) = valuesOf key items ++ valuesOf key more := by
  rw [valuesOf, List.filter_append, List.map_append]
  rfl

theorem valuesOf_singleton (key : κ) (item : κ × ρ) :
    valuesOf key [item] = if item.1 = key then [item.2] else [] := by
  by_cases h : item.1 = key <;> simp [valuesOf, h]

theorem valuesOf_eq_nil {key : κ} {items : List (κ × ρ)} (h : key ∉ keysOf items) :
    valuesOf key items = [] := by
  have hnone : items.filter (fun item ↦ item.1 = key) = [] :=
    List.filter_eq_nil_iff.2 fun item hitem heq ↦
      h <| mem_keysOf.2 ⟨item, hitem, by simpa using heq⟩
  rw [valuesOf, hnone, List.map_nil]

theorem valuesOf_eq_map {key : κ} {items : List (κ × ρ)} (h : ∀ item ∈ items, item.1 = key) :
    valuesOf key items = items.map Prod.snd := by
  rw [valuesOf, List.filter_eq_self.2 fun item hitem ↦ by simpa using h item hitem]

theorem valuesOf_map {f : κ → κ'} {key : κ} {items : List (κ × ρ)}
    (hf : ∀ item ∈ items, f item.1 = f key → item.1 = key) :
    valuesOf (f key) (items.map (Prod.map f id)) = valuesOf key items := by
  have hfilter : items.filter (fun item ↦ f item.1 = f key)
      = items.filter fun item ↦ item.1 = key :=
    List.filter_congr fun item hitem ↦ by
      simp [show f item.1 = f key ↔ item.1 = key from ⟨hf item hitem, congrArg f⟩]
  rw [valuesOf, List.filter_map, List.map_map]
  exact congrArg (List.map Prod.snd) hfilter

/-- Items whose values stand for nothing can be left out. -/
theorem flatMap_valuesOf_filter {β : Type} {key : κ} {f : ρ → List β}
    (items : List ((κ × ρ) × Bool)) (h : ∀ item ∈ items, item.2 = true → f item.1.2 = []) :
    (valuesOf key ((items.filter (!·.2)).map Prod.fst)).flatMap f
      = (valuesOf key (items.map Prod.fst)).flatMap f := by
  induction items with
  | nil => rfl
  | cons item rest ih =>
    obtain ⟨hitem, hrest⟩ := List.forall_mem_cons.1 h
    obtain ⟨⟨k, value⟩, mark⟩ := item
    have hcons (items : List (κ × ρ)) : (valuesOf key ((k, value) :: items)).flatMap f
        = (if k = key then f value else []) ++ (valuesOf key items).flatMap f := by
      by_cases hkey : k = key <;> simp [valuesOf, hkey]
    cases mark with
    | false =>
      show (valuesOf key ((k, value) :: _)).flatMap f = (valuesOf key ((k, value) :: _)).flatMap f
      rw [hcons, hcons, ih hrest]
    | true =>
      show _ = (valuesOf key ((k, value) :: _)).flatMap f
      have hnone : f value = [] := hitem rfl
      rw [hcons, hnone, ite_self, List.nil_append]
      exact ih hrest

/-! ## Groups -/

theorem groupsOf_map {f : κ → κ'} {items : List (κ × ρ)}
    (hf : ∀ a ∈ items, ∀ b ∈ items, f a.1 = f b.1 → a.1 = b.1) :
    groupsOf (items.map (Prod.map f id)) = (groupsOf items).map (Prod.map f id) := by
  have hkeys : keysOf (items.map (Prod.map f id)) = (keysOf items).map f := by
    rw [keysOf, keysOf, ← eraseDups_map]
    · simp [Function.comp_def]
    · simpa only [List.forall_mem_map] using hf
  rw [groupsOf, groupsOf, hkeys, List.map_map, List.map_map]
  refine List.map_congr_left fun key hkey ↦ ?_
  obtain ⟨item, hitem, rfl⟩ := mem_keysOf.1 hkey
  exact congrArg (Prod.mk _) (valuesOf_map fun a ha ↦ hf a ha item hitem)

/-- Items that share one key make one group. -/
theorem groupsOf_of_forall_eq {key : κ} {items : List (κ × ρ)} (hne : items ≠ [])
    (h : ∀ item ∈ items, item.1 = key) : groupsOf items = [(key, items.map Prod.snd)] := by
  have hkeys : items.map Prod.fst = List.replicate items.length key :=
    List.eq_replicate_iff.2 ⟨List.length_map _, List.forall_mem_map.2 h⟩
  obtain ⟨n, hn⟩ : ∃ n, items.length = n + 1 :=
    Nat.exists_eq_succ_of_ne_zero (by simpa using hne)
  rw [groupsOf, keysOf, hkeys, hn, List.replicate_succ, List.eraseDups_cons,
    List.filter_eq_nil_iff.2 (by simp)]
  simp [valuesOf_eq_map h]

/-- **One more item** joins the group of its key, or makes a new group at the end. -/
theorem groupsOf_append_singleton (items : List (κ × ρ)) (key : κ) (value : ρ) :
    groupsOf (items ++ [(key, value)])
      = ((keysOf items).map fun k ↦ (k, valuesOf k items ++ if key = k then [value] else []))
        ++ if key ∈ keysOf items then [] else [(key, [value])] := by
  rw [groupsOf, keysOf_append_singleton, List.map_append]
  simp only [valuesOf_append, valuesOf_singleton]
  congr 1
  split
  · rfl
  · next h => simp [valuesOf_eq_nil h]

/-- Distinct keys among which all keys of the items are: each item is under one of them. -/
theorem perm_flatMap_valuesOf {keys : List κ} (hkeys : keys.Nodup) {items : List (κ × ρ)}
    (hmem : ∀ item ∈ items, item.1 ∈ keys) :
    (keys.flatMap fun key ↦ valuesOf key items).Perm (items.map Prod.snd) := by
  induction keys generalizing items with
  | nil =>
    cases items with
    | nil => exact .nil
    | cons item rest => exact absurd (hmem item (List.mem_cons_self ..)) List.not_mem_nil
  | cons key rest ih =>
    obtain ⟨hkey, hrest⟩ := List.nodup_cons.1 hkeys
    -- The other keys see only the items that are left without those of the first.
    have hothers : ∀ item ∈ items.filter fun item ↦ !decide (item.1 = key), item.1 ∈ rest := by
      intro item hitem
      obtain ⟨hitem, hne⟩ := List.mem_filter.1 hitem
      exact (List.mem_cons.1 (hmem item hitem)).resolve_left (by simpa using hne)
    have hleft : (rest.flatMap fun key' ↦ valuesOf key' items)
        = rest.flatMap fun key' ↦
            valuesOf key' (items.filter fun item ↦ !decide (item.1 = key)) := by
      refine List.flatMap_congr fun key' hkey' ↦ ?_
      rw [valuesOf, valuesOf, List.filter_filter]
      refine congrArg _ (List.filter_congr fun item _ ↦ ?_)
      have hne : key' ≠ key := fun heq ↦ hkey (heq ▸ hkey')
      by_cases h : item.1 = key' <;> simp [h, hne]
    rw [List.flatMap_cons, hleft]
    refine ((ih hrest hothers).append_left _).trans ?_
    rw [valuesOf, ← List.map_append]
    exact (List.filter_append_perm _ items).map _

/-- **Every item is in the group of its key, and in no other.** -/
theorem perm_flatMap_groupsOf (items : List (κ × ρ)) :
    ((groupsOf items).flatMap Prod.snd).Perm (items.map Prod.snd) := by
  rw [groupsOf, List.flatMap_map]
  exact perm_flatMap_valuesOf (nodup_keysOf items) fun item hitem ↦ mem_keysOf.2 ⟨item, hitem, rfl⟩

/-- Of distinct keys at most one is the given one. -/
theorem flatMap_ite_eq {β : Type} {key : κ} {keys : List κ} (hkeys : keys.Nodup)
    (f : κ → List β) :
    (keys.flatMap fun k ↦ if k = key then f k else []) = if key ∈ keys then f key else [] := by
  induction keys with
  | nil => rfl
  | cons k rest ih =>
    obtain ⟨hk, hrest⟩ := List.nodup_cons.1 hkeys
    rw [List.flatMap_cons, ih hrest]
    by_cases h : k = key
    · subst h
      simp [hk]
    · simp [h, Ne.symm h]

theorem flatMap_ite_nil {β : Type} (key : κ) (keys : List κ) (f : κ → β) :
    (keys.flatMap fun k ↦ if k = key then [] else [f k]) = (keys.filter (· ≠ key)).map f := by
  induction keys with
  | nil => rfl
  | cons k rest ih => by_cases h : k = key <;> simp [h, ih]

/-- The groups of some of the keys are those of the items with these keys. -/
theorem groupsOf_filter (p : κ → Bool) (items : List (κ × ρ)) :
    groupsOf (items.filter fun item ↦ p item.1)
      = (groupsOf items).filter fun group ↦ p group.1 := by
  have hkeys : keysOf (items.filter fun item ↦ p item.1) = (keysOf items).filter p := by
    rw [keysOf, keysOf, ← eraseDups_filter, List.filter_map]
    rfl
  rw [groupsOf, groupsOf, hkeys, List.filter_map]
  refine List.map_congr_left fun key hkey ↦ congrArg (Prod.mk key) ?_
  have hp : p key = true := (List.mem_filter.1 hkey).2
  rw [valuesOf, valuesOf, List.filter_filter]
  refine congrArg _ (List.filter_congr fun item _ ↦ ?_)
  by_cases h : item.1 = key <;> simp [h, hp]

/-- The groups of one key hold what has that key. -/
theorem flatMap_groupsOf_ite {β : Type} (key : κ) (items : List (κ × ρ)) {f : List ρ → List β}
    (hf : f [] = []) :
    ((groupsOf items).flatMap fun group ↦ if group.1 = key then f group.2 else [])
      = f (valuesOf key items) := by
  rw [groupsOf, List.flatMap_map,
    flatMap_ite_eq (nodup_keysOf items) fun k ↦ f (valuesOf k items)]
  split
  · rfl
  · next h => rw [valuesOf_eq_nil h, hf]

end Glossopoeia
