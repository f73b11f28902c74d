/-!
# Runs of case pairs

Characters and their other case lie in parallel runs: `a` to `z` beside `A` to `Z`, or every second
character of a block beside its neighbour.  A case mapping is a list of such runs.
-/

set_option autoImplicit false

namespace Glossopoeia.Text

/-- Every `step`-th code from `first` to `last`, mapped in parallel to the codes from `target` on.
-/
structure CaseRun where
  /-- First code of the run. -/
  first : Nat
  /-- Last code of the run. -/
  last : Nat
  /-- Distance of neighbouring codes of the run. -/
  step : Nat
  /-- What `first` is mapped to. -/
  target : Nat

namespace CaseRun

/-- Is `n` one of the codes of the run? -/
def covers (run : CaseRun) (n : Nat) : Bool :=
  run.first ≤ n && n ≤ run.last && (n - run.first) % run.step == 0

/-- What the first run that covers `c` makes of it; `c` itself if none does. -/
def apply (runs : List CaseRun) (c : Char) : Char :=
  match runs.find? (·.covers c.toNat) with
  | some run => Char.ofNat (run.target + (c.toNat - run.first))
  | none => c

/-- The code that the run maps to `n`. -/
def source? (run : CaseRun) (n : Nat) : Option Nat :=
  let m := run.first + n - run.target
  if run.target ≤ n && run.covers m then some m else none

end CaseRun

end Glossopoeia.Text
