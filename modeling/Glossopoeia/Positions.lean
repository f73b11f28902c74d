/-!
# Where keys stand

A list of items with keys may be kept with a hash table that says at which place each key stands, so
that an item is found without going through the list.  Of the table only its answers matter: a key
is answered with the place that it was entered with last.

`Positions.Tells` ties a table to a list.  It is what a structure made of the two has to keep.
-/

set_option autoImplicit false

namespace Glossopoeia

/-- A table of places, by the keys entered into it. -/
structure Positions (κ : Type) where
  /-- The keys with their places, the latest first. -/
  entered : List (κ × Nat)

namespace Positions

variable {κ : Type} [DecidableEq κ]

/-- The table without a key. -/
def empty : Positions κ := ⟨[]⟩

/-- The place of a key. -/
def get? (p : Positions κ) (key : κ) : Option Nat := p.entered.lookup key

/-- Enter the place of a key, instead of the one it had. -/
def insert (p : Positions κ) (key : κ) (place : Nat) : Positions κ := ⟨(key, place) :: p.entered⟩

theorem get?_insert (p : Positions κ) (key other : κ) (place : Nat) :
    (p.insert key place).get? other = if other = key then some place else p.get? other := by
  rw [get?, insert, List.lookup_cons]
  by_cases h : other = key
  · rw [if_pos h, beq_iff_eq.2 h]
  · rw [if_neg h, beq_eq_false_iff_ne.2 h, get?]

/-- The table answers a key with a place exactly if the item that stands there has the key. -/
def Tells {α : Type} (p : Positions κ) (keyOf : α → Option κ) (items : List α) : Prop :=
  ∀ key place, p.get? key = some place ↔ items[place]?.bind keyOf = some key

namespace Tells

variable {α : Type} {p : Positions κ} {keyOf : α → Option κ} {items : List α} {key : κ}
  {place : Nat}

theorem empty : Positions.empty.Tells keyOf [] := fun _ _ ↦ by simp [get?, Positions.empty]

/-- A place that is told is one of the list. -/
theorem lt_length (h : p.Tells keyOf items) (hplace : p.get? key = some place) :
    place < items.length := by
  obtain ⟨item, hitem, -⟩ := Option.bind_eq_some_iff.1 ((h key place).1 hplace)
  exact (List.getElem?_eq_some_iff.1 hitem).1

/-- One more item at the end, with a key that none has. -/
theorem append_singleton (h : p.Tells keyOf items) (hkey : p.get? key = none) {item : α}
    (hitem : keyOf item = some key) :
    (p.insert key items.length).Tells keyOf (items ++ [item]) := by
  intro other i
  rw [get?_insert]
  rcases Nat.lt_trichotomy i items.length with hlt | rfl | hgt
  · rw [List.getElem?_append_left hlt, ← h]
    by_cases hother : other = key
    · subst hother
      simp [hkey, Nat.ne_of_gt hlt]
    · rw [if_neg hother]
  · rw [List.getElem?_concat_length, Option.bind_some, hitem]
    by_cases hother : other = key
    · simp [hother]
    · -- The key asked for has no place behind the list.
      have hnone : p.get? other ≠ some items.length := fun hsome ↦
        Nat.lt_irrefl _ (h.lt_length hsome)
      simp [hother, Ne.symm hother, hnone]
  · have hlen : (items ++ [item]).length ≤ i := by
      rw [List.length_append]
      exact hgt
    rw [List.getElem?_eq_none hlen, Option.bind_none]
    by_cases hother : other = key
    · simp [hother, Nat.ne_of_lt hgt]
    · have hnone : p.get? other ≠ some i := fun hsome ↦
        Nat.lt_asymm hgt (h.lt_length hsome)
      simp [hother, hnone]

/-- An item in place of another one with the same key. -/
theorem set (h : p.Tells keyOf items) {item : α} (hitem : keyOf item = items[place]?.bind keyOf) :
    p.Tells keyOf (items.set place item) := by
  intro other i
  rw [h, List.getElem?_set]
  by_cases hi : place = i
  · subst hi
    rw [if_pos rfl]
    by_cases hlt : place < items.length
    · rw [if_pos hlt, Option.bind_some, hitem]
    · rw [if_neg hlt, List.getElem?_eq_none (Nat.le_of_not_lt hlt)]
  · rw [if_neg hi]

end Tells

end Positions

end Glossopoeia
