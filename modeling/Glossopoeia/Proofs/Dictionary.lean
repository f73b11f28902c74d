import Glossopoeia.Dictionary

/-!
# What dictionaries hold

What is bound in a dictionary after a change: what was bound before, and what the change has put
there.  Most lemmas are about values alone, since the library asks of a value whether it is good and
seldom under which key it stands.
-/

set_option autoImplicit false

namespace Glossopoeia

namespace Dictionary

variable {β : Type} {d : Dictionary β} {key : String} {v : β}

/-- A binding after a change is an old one, or it is the new one. -/
theorem mem_alterEntries {f : Option β → β} {es : List (String × β)} {e : String × β}
    (h : e ∈ alterEntries key f es) :
    e ∈ es ∨ e = (key, f none) ∨ ∃ old, (key, old) ∈ es ∧ e = (key, f (some old)) := by
  induction es with
  | nil => exact .inr (.inl (List.mem_singleton.1 h))
  | cons head rest ih =>
    obtain ⟨k, old⟩ := head
    rw [alterEntries] at h
    split at h
    · rcases List.mem_cons.1 h with rfl | h
      · exact .inr (.inl rfl)
      · exact .inl h
    · split at h
      · next hkey =>
        subst hkey
        rcases List.mem_cons.1 h with rfl | h
        · exact .inr (.inr ⟨old, List.mem_cons_self .., rfl⟩)
        · exact .inl (List.mem_cons_of_mem _ h)
      · rcases List.mem_cons.1 h with rfl | h
        · exact .inl (List.mem_cons_self ..)
        · rcases ih h with h | h | ⟨old', hold, h⟩
          · exact .inl (List.mem_cons_of_mem _ h)
          · exact .inr (.inl h)
          · exact .inr (.inr ⟨old', List.mem_cons_of_mem _ hold, h⟩)

theorem mem_values_iff : v ∈ d.values ↔ ∃ key, (key, v) ∈ d.entries := by
  simp [values]

theorem mem_values_alter {f : Option β → β} (h : v ∈ (d.alter key f).values) :
    v ∈ d.values ∨ v = f none ∨ ∃ old ∈ d.values, v = f (some old) := by
  obtain ⟨k, hk⟩ := mem_values_iff.1 h
  rcases mem_alterEntries hk with hold | heq | ⟨old, hold, heq⟩
  · exact .inl (mem_values_iff.2 ⟨k, hold⟩)
  · exact .inr (.inl (congrArg Prod.snd heq))
  · exact .inr (.inr ⟨old, mem_values_iff.2 ⟨key, hold⟩, congrArg Prod.snd heq⟩)

theorem mem_values_insert {value : β} (h : v ∈ (d.insert key value).values) :
    v ∈ d.values ∨ v = value := by
  rcases mem_values_alter h with h | h | ⟨_, _, h⟩
  · exact .inl h
  · exact .inr h
  · exact .inr h

theorem not_mem_values_empty : v ∉ (empty : Dictionary β).values := List.not_mem_nil

theorem mem_values_ofList {bindings : List (String × β)} (h : v ∈ (ofList bindings).values) :
    ∃ key, (key, v) ∈ bindings := by
  suffices ∀ d : Dictionary β,
      v ∈ (bindings.foldl (fun d binding ↦ d.insert binding.1 binding.2) d).values →
        v ∈ d.values ∨ ∃ key, (key, v) ∈ bindings from
    (this empty h).resolve_left not_mem_values_empty
  clear h
  induction bindings with
  | nil => exact fun d h ↦ .inl h
  | cons binding rest ih =>
    intro d h
    rcases ih _ h with h | ⟨key, h⟩
    · rcases mem_values_insert h with h | rfl
      · exact .inl h
      · exact .inr ⟨binding.1, List.mem_cons_self ..⟩
    · exact .inr ⟨key, List.mem_cons_of_mem _ h⟩

theorem mem_values_of_get? (h : d.get? key = some v) : v ∈ d.values := by
  obtain ⟨l₁, l₂, heq, _⟩ := List.lookup_eq_some_iff.1 h
  exact mem_values_iff.2 ⟨key, by simp [heq]⟩

/-! ## What a key is bound to -/

theorem lookup_cons_eq_ite (k k' : String) (v : β) (es : List (String × β)) :
    List.lookup k ((k', v) :: es) = if k = k' then some v else es.lookup k := by
  rw [List.lookup_cons]
  by_cases hk : k = k'
  · rw [if_pos hk, beq_iff_eq.2 hk]
  · rw [if_neg hk, beq_eq_false_iff_ne.2 hk]

theorem lookup_eq_none_of_lt {es : List (String × β)} (h : ∀ e ∈ es, key < e.1) :
    es.lookup key = none := by
  rw [List.lookup_eq_none_iff]
  intro e he
  rw [bne_iff_ne]
  exact fun heq ↦ String.lt_irrefl _ (heq ▸ h e he)

theorem lookup_alterEntries (f : Option β → β) {es : List (String × β)}
    (h : es.Pairwise fun a b ↦ a.1 < b.1) (k : String) :
    (alterEntries key f es).lookup k
      = if k = key then some (f (es.lookup key)) else es.lookup k := by
  induction es with
  | nil => exact lookup_cons_eq_ite ..
  | cons head rest ih =>
    obtain ⟨k', v⟩ := head
    obtain ⟨hhead, hrest⟩ := List.pairwise_cons.1 h
    rw [alterEntries]
    split
    · next hlt =>
      have hnone : List.lookup key ((k', v) :: rest) = none :=
        lookup_eq_none_of_lt (List.forall_mem_cons.2
          ⟨hlt, fun e he ↦ String.lt_trans hlt (hhead e he)⟩)
      rw [hnone, lookup_cons_eq_ite]
    · split
      · next hkey =>
        subst hkey
        simp only [lookup_cons_eq_ite, if_true]
        split <;> rfl
      · next hkey =>
        simp only [lookup_cons_eq_ite, ih hrest, if_neg hkey]
        by_cases hk : k = k'
        · rw [if_pos hk, if_pos hk, if_neg (hk ▸ Ne.symm hkey)]
        · rw [if_neg hk, if_neg hk]

/-- A change concerns its key alone. -/
theorem get?_alter (f : Option β → β) (k : String) :
    (d.alter key f).get? k = if k = key then some (f (d.get? key)) else d.get? k :=
  lookup_alterEntries f d.ascending k

/-! ## Bindings at the end -/

/-- A key above all others is bound behind them. -/
theorem alterEntries_of_lt {f : Option β → β} {es : List (String × β)}
    (h : ∀ e ∈ es, e.1 < key) : alterEntries key f es = es ++ [(key, f none)] := by
  induction es with
  | nil => rfl
  | cons e rest ih =>
    obtain ⟨hlt, hrest⟩ := List.forall_mem_cons.1 h
    have hgt : ¬key < e.1 := fun hgt ↦ String.lt_irrefl _ (String.lt_trans hlt hgt)
    have hne : ¬key = e.1 := fun heq ↦ String.lt_irrefl _ (heq ▸ hlt)
    rw [alterEntries, if_neg hgt, if_neg hne, ih hrest, List.cons_append]

/-- Ascending bindings are bound as they stand. -/
theorem entries_ofList {bindings : List (String × β)}
    (h : bindings.Pairwise fun a b ↦ a.1 < b.1) : (ofList bindings).entries = bindings := by
  suffices ∀ d : Dictionary β, (d.entries ++ bindings).Pairwise (fun a b ↦ a.1 < b.1) →
      (bindings.foldl (fun d binding ↦ d.insert binding.1 binding.2) d).entries
        = d.entries ++ bindings from this empty h
  clear h
  induction bindings with
  | nil => exact fun d _ ↦ (List.append_nil _).symm
  | cons binding rest ih =>
    intro d h
    have hinsert : (d.insert binding.1 binding.2).entries = d.entries ++ [binding] :=
      alterEntries_of_lt fun e he ↦ (List.pairwise_append.1 h).2.2 e he binding
        (List.mem_cons_self ..)
    rw [List.append_cons, ← hinsert] at h ⊢
    exact ih _ h

/-! ## Sets of strings -/

theorem contains_eq_isSome_get? (d : Dictionary β) (key : String) :
    d.contains key = (d.get? key).isSome := by
  rw [contains, get?]
  induction d.entries with
  | nil => rfl
  | cons e rest ih =>
    rw [List.any_cons, ih, lookup_cons_eq_ite]
    by_cases hkey : key = e.1
    · rw [if_pos hkey, beq_iff_eq.2 hkey.symm, Bool.true_or, Option.isSome_some]
    · rw [if_neg hkey, beq_eq_false_iff_ne.2 (Ne.symm hkey), Bool.false_or]

theorem contains_eq_true_iff : d.contains key = true ↔ key ∈ d.keys := by
  rw [contains, List.any_eq_true, keys, List.mem_map]
  simp only [beq_iff_eq]

/-- The keys ascend, so none comes twice. -/
theorem nodup_keys (d : Dictionary β) : d.keys.Nodup :=
  List.pairwise_map.2 <| d.ascending.imp fun {a b} (hlt : a.1 < b.1) (heq : a.1 = b.1) ↦
    String.lt_irrefl b.1 (heq ▸ hlt)

end Dictionary

namespace StringSet

theorem contains_insert (s : StringSet) (member v : String) :
    (s.insert member).contains v = (v == member || s.contains v) := by
  rw [Dictionary.contains_eq_isSome_get?, Dictionary.contains_eq_isSome_get?, insert,
    Dictionary.insert, Dictionary.get?_alter]
  by_cases hv : v = member
  · rw [if_pos hv, beq_iff_eq.2 hv, Bool.true_or, Option.isSome_some]
  · rw [if_neg hv, beq_eq_false_iff_ne.2 hv, Bool.false_or]

/-- The set of a list has its members and no other. -/
theorem contains_ofList (members : List String) (v : String) :
    (ofList members).contains v = members.contains v := by
  suffices ∀ s : StringSet,
      (members.foldl insert s).contains v = (s.contains v || members.contains v) from
    (this Dictionary.empty).trans (Bool.false_or _)
  induction members with
  | nil => exact fun s ↦ (Bool.or_false _).symm
  | cons member rest ih =>
    intro s
    rw [List.foldl_cons, ih, contains_insert, List.contains_cons, Bool.or_comm (v == member),
      Bool.or_assoc]

theorem mem_toList_ofList {members : List String} {v : String} :
    v ∈ (ofList members).toList ↔ v ∈ members := by
  rw [toList, ← Dictionary.contains_eq_true_iff, contains_ofList, List.contains_iff_mem]

end StringSet

end Glossopoeia
