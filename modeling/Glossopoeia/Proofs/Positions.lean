import Mathlib.Data.List.Basic
import Glossopoeia.Positions

/-!
# Where keys stand, in a hash table

Whatever the hash, a hash table into which keys are entered with their places answers every key as
the list of what was entered does (`isHashed_foldl_insert`).
-/

set_option autoImplicit false

namespace Glossopoeia.Positions

variable {κ : Type} [DecidableEq κ] [Hashable κ]

/-- The hash table answers every key as the list does. -/
def IsHashed (p : Positions κ) (table : Std.HashMap κ Nat) : Prop :=
  ∀ key, p.get? key = table[key]?

theorem isHashed_empty : (empty : Positions κ).IsHashed ∅ :=
  fun _ ↦ Std.HashMap.getElem?_empty.symm

/-- One more key in both. -/
theorem IsHashed.insert {p : Positions κ} {table : Std.HashMap κ Nat} (h : p.IsHashed table)
    (key : κ) (place : Nat) : (p.insert key place).IsHashed (table.insert key place) := by
  intro other
  rw [get?_insert, Std.HashMap.getElem?_insert, h]
  by_cases hother : other = key
  · rw [if_pos hother, if_pos (beq_iff_eq.2 hother.symm)]
  · rw [if_neg hother, if_neg (mt beq_iff_eq.1 (Ne.symm hother))]

/-- **A hash table of what was entered** answers as the list does. -/
theorem isHashed_foldl_insert (entered : List (κ × Nat)) :
    (entered.foldl (fun p item ↦ p.insert item.1 item.2) empty).IsHashed
      (entered.foldl (fun table item ↦ table.insert item.1 item.2) ∅) := by
  suffices h : ∀ (p : Positions κ) (table : Std.HashMap κ Nat), p.IsHashed table →
      (entered.foldl (fun p item ↦ p.insert item.1 item.2) p).IsHashed
        (entered.foldl (fun table item ↦ table.insert item.1 item.2) table) from
    h empty ∅ isHashed_empty
  induction entered with
  | nil => exact fun _ _ h ↦ h
  | cons item rest ih => exact fun p table h ↦ ih _ _ (h.insert item.1 item.2)

end Glossopoeia.Positions
