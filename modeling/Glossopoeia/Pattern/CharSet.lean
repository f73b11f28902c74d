import Glossopoeia.Text.Blank
import Glossopoeia.Text.WordChar
import Glossopoeia.Text.DecimalDigit
import Glossopoeia.Text.Case.Fold

/-!
# Sets of characters

What a class of a pattern stands for.  A set is an expression over ranges and the three named
classes; `contains` says which characters are in it.
-/

set_option autoImplicit false

namespace Glossopoeia

open Text

/-- An expression for a set of characters. -/
inductive CharSet where
  /-- No character. -/
  | empty
  /-- The characters between two ends, both included. -/
  | range (first last : Char)
  /-- The decimal digits of all scripts. -/
  | digit
  /-- White space. -/
  | blank
  /-- Word characters. -/
  | word
  /-- The characters that are not in the set. -/
  | inverse (s : CharSet)
  /-- The characters of either set. -/
  | union (s t : CharSet)
  /-- The characters of both sets. -/
  | inter (s t : CharSet)
  /-- The characters of the first set that are not in the second. -/
  | diff (s t : CharSet)
  /-- The characters of exactly one of the sets. -/
  | symmDiff (s t : CharSet)
  /-- The characters that differ only in case from one of the set. -/
  | folded (s : CharSet)
deriving DecidableEq, Repr

namespace CharSet

instance : Inhabited CharSet := ⟨empty⟩

/-- Is `c` in the set? -/
def contains : CharSet → Char → Bool
  | empty, _ => false
  | range first last, c => first ≤ c && c ≤ last
  | digit, c => isDecimalDigit c
  | blank, c => isBlank c
  | word, c => isWordChar c
  | inverse s, c => !s.contains c
  | union s t, c => s.contains c || t.contains c
  | inter s t, c => s.contains c && t.contains c
  | diff s t, c => s.contains c && !t.contains c
  | symmDiff s t, c => s.contains c != t.contains c
  | folded s, c => s.contains c || (caseOrbit c).any s.contains

/-- The set of one character. -/
def single (c : Char) : CharSet := range c c

/-- Every character. -/
def all : CharSet := inverse empty

/-- Every character that does not end a line. -/
def withinLine : CharSet := inverse (single '\n')

/-- The set read without regard to case.  The named classes have their characters' other cases
already, so only the ranges change, and a complement is taken afterwards. -/
def ignoreCase : CharSet → CharSet
  | range first last => folded (range first last)
  | inverse s => inverse s.ignoreCase
  | union s t => union s.ignoreCase t.ignoreCase
  | inter s t => inter s.ignoreCase t.ignoreCase
  | diff s t => diff s.ignoreCase t.ignoreCase
  | symmDiff s t => symmDiff s.ignoreCase t.ignoreCase
  | s => s

/-- The union of ranges. -/
def ofRanges : List (Char × Char) → CharSet
  | [] => empty
  | (first, last) :: rest => union (range first last) (ofRanges rest)

@[simp] theorem contains_single (c d : Char) : (single c).contains d = (d == c) := by
  rw [Bool.eq_iff_iff]
  simp only [single, contains, Bool.and_eq_true, decide_eq_true_eq, beq_iff_eq]
  exact ⟨fun h ↦ Char.le_antisymm h.2 h.1, fun h ↦ h ▸ ⟨Char.le_refl _, Char.le_refl _⟩⟩

end CharSet

end Glossopoeia
