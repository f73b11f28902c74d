/-!
# Combinations

The ways to choose a given number of items from a list, each in the order of the list, and the ways
themselves in lexicographic order of the places chosen.

The places are counted up.  The first ones are taken to begin with; then the last place that can
still move goes one on and those after it line up behind it, until none can move any more.  Every
round of the count finds one choice.
-/

set_option autoImplicit false

namespace Glossopoeia

/-- What a computation with indices may run into. -/
inductive IndexFault where
  /-- There is nothing at an index. -/
  | outOfRange
  /-- More is taken away from a number than there is. -/
  | underflow
deriving DecidableEq, Repr

/-- A loop within a number of rounds: it ends with a value or with a fault, or it has not come to an
end by then (`none`). -/
abbrev Run (α : Type) : Type := Option (Except IndexFault α)

namespace Places

/-- The place at an index. -/
def fetch (places : List Nat) (i : Nat) : Except IndexFault Nat :=
  match places[i]? with
  | some place => .ok place
  | none => .error .outOfRange

/-- Put a place at an index. -/
def store (places : List Nat) (i place : Nat) : Except IndexFault (List Nat) :=
  if i < places.length then .ok (places.set i place) else .error .outOfRange

/-- Take `b` away from `a`. -/
def difference (a b : Nat) : Except IndexFault Nat :=
  if b ≤ a then .ok (a - b) else .error .underflow

/-- The last one of the first `i` places that can move on: `size` places below `n` leave the one at
`i` the numbers up to `n - size + i`. -/
def lastMovable (n size : Nat) (places : List Nat) : Nat → Except IndexFault (Option Nat)
  | 0 => .ok none
  | i + 1 => do
    let place ← fetch places i
    let room ← difference n size
    if place < room + i then return some i
    lastMovable n size places i

/-- Line up the places at the indices from `start` to `size`, each right behind the one before. -/
def lineUp (size start : Nat) (places : List Nat) : Except IndexFault (List Nat) :=
  (List.range' start (size - start)).foldlM (fun places i ↦ do
    let before ← fetch places (← difference i 1)
    store places i (before + 1)) places

/-- The places that come next, if these are not the last ones. -/
def next (n size : Nat) (places : List Nat) : Except IndexFault (Option (List Nat)) := do
  match ← lastMovable n size places size with
  | none => return none
  | some pos =>
    let place ← fetch places pos
    let moved ← store places pos (place + 1)
    return some (← lineUp size (pos + 1) moved)

/-- Count up from `places` for a number of rounds, with what was found before them. -/
def enumerateFrom (n size : Nat) : Nat → Array (List Nat) → List Nat → Run (List (List Nat))
  | 0, _, _ => none
  | rounds + 1, found, places =>
    match next n size places with
    | .error fault => some (.error fault)
    | .ok none => some (.ok (found.push places).toList)
    | .ok (some later) => enumerateFrom n size rounds (found.push places) later

/-- All choices of `size` places below `n`, if the count takes no more than so many rounds.  Choosing
nothing is no choice. -/
def enumerate (n size rounds : Nat) : Run (List (List Nat)) :=
  if size = 0 ∨ n < size then some (.ok [])
  else enumerateFrom n size rounds #[] (List.range size)

end Places

variable {α : Type}

/-- The ways to choose `size` items.  Counting up their places never fails, and since the choices are
no more than the subsets it ends in as many rounds as there are of these (`combinations_succ`). -/
def combinations (size : Nat) (items : List α) : List (List α) :=
  match Places.enumerate items.length size (Nat.pow 2 items.length) with
  | some (.ok choices) => choices.map fun places ↦ places.filterMap (items[·]?)
  | _ => []

/-- The combinations of every size, the smaller ones first. -/
def allCombinations (items : List α) : List (List α) :=
  (List.range items.length).flatMap fun n ↦ combinations (n + 1) items

end Glossopoeia
