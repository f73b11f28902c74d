import Glossopoeia.Derivation.OrderedIndex

/-!
# An index as a list of bindings

Keys, entries and table of an index together are one list of bindings, in the order in which the
keys were first bound (`OrderedIndex.bindings`).  On such a list everything is done by a search from
its start: a key is bound in place of what it was bound to, or at the end (`Bindings.bind`), and the
first binding that answers a query counts.

The index does the same (`bindings_insert`, `find?_eq_findFirst?`, `get?_eq_find?`), although it
looks keys up in its table: since the table is that of the keys, it answers a key with the first
place at which a search would find it (`get?_positions`).  So what is said of indices is proved for
lists of bindings.
-/

set_option autoImplicit false

namespace Glossopoeia

/-- Bindings in the order in which their keys were first bound. -/
abbrev Bindings (κ : Type) := List (κ × LexiconEntry)

variable {κ : Type} [DecidableEq κ]

namespace Bindings

/-- Bind a key, in place of what it was bound to. -/
def bind (key : κ) (e : LexiconEntry) : Bindings κ → Bindings κ
  | [] => [(key, e)]
  | (k, old) :: rest => if k = key then (key, e) :: rest else (k, old) :: bind key e rest

/-- What the first key that satisfies `p` is bound to. -/
def findFirst? (p : κ → Bool) (b : Bindings κ) : Option LexiconEntry :=
  (List.find? (fun binding ↦ p binding.1) b).map Prod.snd

/-- What a key is bound to. -/
def find? (key : κ) (b : Bindings κ) : Option LexiconEntry :=
  findFirst? (fun k ↦ decide (k = key)) b

omit [DecidableEq κ] in
theorem findFirst?_cons (p : κ → Bool) (k : κ) (e : LexiconEntry) (b : Bindings κ) :
    findFirst? p ((k, e) :: b) = if p k then some e else findFirst? p b := by
  rw [findFirst?, List.find?_cons]
  cases p k <;> rfl

variable {keys : List κ} {entries : List LexiconEntry}

omit [DecidableEq κ] in
/-- The first binding found among keys and entries side by side. -/
theorem findFirst?_zip (h : entries.length = keys.length) (p : κ → Bool) :
    findFirst? p (keys.zip entries) = (keys.findIdx? p).bind (entries[·]?) := by
  induction keys generalizing entries with
  | nil => rfl
  | cons k keys ih =>
    obtain ⟨e, entries, rfl⟩ := List.exists_cons_of_length_eq_add_one h
    rw [List.zip_cons_cons, findFirst?_cons, List.findIdx?_cons, ih (Nat.succ.inj h)]
    cases p k with
    | true => rfl
    | false => cases keys.findIdx? p <;> rfl

/-- A key that is among the keys is bound in its first place. -/
theorem bind_zip_of_findIdx? (h : entries.length = keys.length) {key : κ} {place : Nat}
    (hplace : keys.findIdx? (fun k ↦ decide (k = key)) = some place) (e : LexiconEntry) :
    bind key e (keys.zip entries) = keys.zip (entries.set place e) := by
  induction keys generalizing entries place with
  | nil => cases hplace
  | cons k keys ih =>
    obtain ⟨old, entries, rfl⟩ := List.exists_cons_of_length_eq_add_one h
    rw [List.findIdx?_cons] at hplace
    rw [List.zip_cons_cons, bind]
    by_cases hk : k = key
    · rw [if_pos (decide_eq_true hk)] at hplace
      cases hplace
      rw [if_pos hk, List.set_cons_zero, List.zip_cons_cons, hk]
    · rw [if_neg (by simpa using hk)] at hplace
      obtain ⟨i, hi, rfl⟩ := Option.map_eq_some_iff.1 hplace
      rw [if_neg hk, List.set_cons_succ, List.zip_cons_cons, ih (Nat.succ.inj h) hi]

/-- A key that is not among the keys is bound at the end. -/
theorem bind_of_notMem {key : κ} {b : Bindings κ} (h : ∀ binding ∈ b, binding.1 ≠ key)
    (e : LexiconEntry) : bind key e b = b ++ [(key, e)] := by
  induction b with
  | nil => rfl
  | cons binding rest ih =>
    obtain ⟨hhead, hrest⟩ := List.forall_mem_cons.1 h
    rw [bind, if_neg hhead, ih hrest, List.cons_append]

end Bindings

namespace OrderedIndex

variable (index : OrderedIndex κ)

/-- The keys, each with the entry that it is bound to. -/
def bindings : Bindings κ := index.keys.zip index.entries

theorem entryAt_eq_bind {found : Option Nat}
    (h : ∀ place, found = some place → place < index.keys.length) :
    index.entryAt found h = found.bind (index.entries[·]?) := by
  cases found with
  | none => rfl
  | some place => exact (List.getElem?_eq_getElem (index.length_entries ▸ h place rfl)).symm

/-- **The table says what a search from the first key on would find.** -/
theorem get?_positions (key : κ) :
    index.positions.get? key = index.keys.findIdx? fun k ↦ decide (k = key) := by
  cases hfound : index.keys.findIdx? fun k ↦ decide (k = key) with
  | some place =>
    obtain ⟨hlt, hkey, -⟩ := List.findIdx?_eq_some_iff_getElem.1 hfound
    rw [index.tells, List.getElem?_eq_getElem hlt, Option.bind_some, of_decide_eq_true hkey]
  | none =>
    rw [List.findIdx?_eq_none_iff] at hfound
    refine Option.eq_none_iff_forall_ne_some.2 fun place hplace ↦ ?_
    rw [index.tells, Option.bind_fun_some] at hplace
    exact of_decide_eq_false (hfound key (List.mem_of_getElem? hplace)) rfl

/-- No key is bound twice. -/
theorem nodup_keys : index.keys.Nodup := by
  rw [List.Nodup, List.pairwise_iff_getElem]
  intro i j hi hj hlt heq
  have hplace {k : Nat} (hk : k < index.keys.length) :
      index.positions.get? index.keys[k] = some k := by
    rw [index.tells, List.getElem?_eq_getElem hk, Option.bind_some]
  have hsame := (hplace hi).symm.trans (heq ▸ hplace hj)
  exact Nat.ne_of_lt hlt (Option.some.inj hsame)

/-- **A search through the keys** finds what a search through the bindings finds. -/
theorem find?_eq_findFirst? (p : κ → Bool) : index.find? p = index.bindings.findFirst? p := by
  rw [find?, entryAt_eq_bind, bindings, Bindings.findFirst?_zip index.length_entries]

/-- **To look a key up in the table** is as good as to search for it. -/
theorem get?_eq_find? (key : κ) : index.get? key = index.bindings.find? key := by
  rw [get?, entryAt_eq_bind, get?_positions, bindings, Bindings.find?,
    Bindings.findFirst?_zip index.length_entries]

/-- **To bind a key in the index** is to bind it in the list of its bindings. -/
theorem bindings_insert (key : κ) (e : LexiconEntry) :
    (index.insert key e).bindings = index.bindings.bind key e := by
  rw [insert]
  split
  · next place hplace =>
    rw [get?_positions] at hplace
    exact (Bindings.bind_zip_of_findIdx? index.length_entries hplace e).symm
  · next hnone =>
    rw [get?_positions, List.findIdx?_eq_none_iff] at hnone
    have hbindings : ∀ binding ∈ index.bindings, binding.1 ≠ key := fun binding hbinding ↦
      of_decide_eq_false (hnone binding.1 (List.of_mem_zip hbinding).1)
    rw [Bindings.bind_of_notMem hbindings]
    exact List.zip_append index.length_entries.symm

end OrderedIndex

end Glossopoeia
