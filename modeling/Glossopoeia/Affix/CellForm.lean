import Glossopoeia.Affix.Basic
import Glossopoeia.Text.Basic

/-!
# The written forms of affixes

An affix is written with a hyphen where the word goes: `na-` is put before it, `-s` after it, and
`la -` is a word of its own.  A conditional affix chooses between two by the first or the last sound
of the word: `IF #V THEN n- ELSE na-`.  `CellForm.read?` reads the forms of table cells and
`CellForm.readDerivational?` the fewer and stricter ones of derivational affixes.
-/

set_option autoImplicit false

namespace Glossopoeia

open Text

/-- What a conditional affix asks about the word. -/
inductive Boundary where
  /-- Does it begin with a vowel? -/
  | initialVowel
  /-- Does it end with a vowel? -/
  | finalVowel
  /-- Does it begin with a consonant? -/
  | initialConsonant
  /-- Does it end with a consonant? -/
  | finalConsonant
deriving DecidableEq, Repr

namespace Boundary

/-- How the question is written. -/
def mark : Boundary → List Char
  | initialVowel => ['#', 'V']
  | finalVowel => ['V', '#']
  | initialConsonant => ['#', 'C']
  | finalConsonant => ['C', '#']

/-- Is it about the first sound of the word? -/
def isInitial : Boundary → Bool
  | initialVowel | initialConsonant => true
  | _ => false

/-- All questions. -/
def all : List Boundary := [initialVowel, finalVowel, initialConsonant, finalConsonant]

end Boundary

/-- The written form of an affix. -/
inductive CellForm where
  /-- One affix. -/
  | plain (kind : AffixKind) (add : List Char)
  /-- One affix or another. -/
  | conditional (kind : AffixKind) (boundary : Boundary) (thenAdd elseAdd : List Char)
deriving DecidableEq, Repr

namespace CellForm

/-! ## Pieces -/

/-- The word `start` and the blanks after it. -/
def keyword (start : String) (cs : List Char) : Option (List Char) :=
  (stripStart start.toList cs).map trimLeft

/-- The condition that a conditional affix opens with, and what follows its `THEN`. -/
def readCondition (cs : List Char) : Option (Boundary × List Char) := do
  let rest ← keyword "IF" (trimLeft cs)
  let (boundary, rest) ← Boundary.all.findSome? fun b ↦
    (stripStart b.mark rest).map fun rest ↦ (b, trimLeft rest)
  let rest ← keyword "THEN" rest
  return (boundary, rest)

/-- What follows an `ELSE`, the blanks around it left out. -/
def afterElse (cs : List Char) : Option (List Char) := keyword "ELSE" (trimLeft cs)

/-- The longest run without blanks, of one character at least, after which `k` succeeds. -/
def longestRun {α : Type} (k : List Char → Option α) (taken : List Char) :
    List Char → Option (List Char × α)
  | [] => if taken.isEmpty then none else (k []).map (taken.reverse, ·)
  | c :: rest =>
    let longer := if isBlank c then none else longestRun k (c :: taken) rest
    longer.or (if taken.isEmpty then none else (k (c :: rest)).map (taken.reverse, ·))

/-- Is the text a run without blanks? -/
def isRun (cs : List Char) : Bool := !cs.isEmpty && cs.all isSolid

/-- Is the text a run without blanks, perhaps with blanks after it? -/
def isRunAndBlanks (cs : List Char) : Bool :=
  isRun (cs.takeWhile isSolid) && allBlank (cs.dropWhile isSolid)

/-- What stands before the hyphen that a text ends with, blanks after it left out. -/
def beforeHyphen (cs : List Char) : Option (List Char) :=
  match (trimRight cs).reverse with
  | '-' :: rest => some rest.reverse
  | _ => none

/-- A text that ends with a hyphen, if what stands before it satisfies `p`. -/
def closing (p : List Char → Bool) (cs : List Char) : Option (List Char) :=
  (beforeHyphen cs).bind fun stem ↦ if p stem then some stem else none

/-- What follows the hyphen that a text begins with. -/
def afterHyphen : List Char → Option (List Char)
  | '-' :: rest => some rest
  | _ => none

/-- A text that begins with a hyphen, blanks at its end left out; `gap` tells whether blanks may
stand after the hyphen, which then belong to the affix. -/
def opening (gap : Bool) (cs : List Char) : Option (List Char) :=
  (afterHyphen cs).bind fun rest ↦
    let stem := trimRight rest
    let start := if gap then stem.dropWhile isBlank else stem
    if isRun start then some stem else none

/-! ## Branches of a conditional affix -/

/-- The branches `a- ELSE b-`. -/
def frontBranches (p : List Char → Bool) (cs : List Char) : Option (List Char × List Char) :=
  longestRun (fun rest ↦ ((afterHyphen rest).bind afterElse).bind (closing p)) [] cs

/-- The branches `a - ELSE b -`. -/
def particleBranches (cs : List Char) : Option (List Char × List Char) :=
  let run := cs.takeWhile isSolid
  let rest := cs.dropWhile isSolid
  let gap := rest.takeWhile isBlank
  if run.isEmpty || gap.isEmpty then none
  else
    (((afterHyphen (rest.dropWhile isBlank)).bind afterElse).bind (closing isRunAndBlanks)).map
      (run ++ gap, ·)

/-- The branches `-a ELSE -b`. -/
def backBranches (gap : Bool) (cs : List Char) : Option (List Char × List Char) :=
  (afterHyphen cs).bind (longestRun (fun rest ↦ (afterElse rest).bind (opening gap)) [])

/-! ## Forms -/

/-- A conditional affix of a table cell. -/
def readConditional? (cs : List Char) : Option CellForm :=
  (readCondition cs).bind fun (boundary, rest) ↦
    if boundary.isInitial then
      ((frontBranches isRunAndBlanks rest).map fun (a, b) ↦ conditional .front boundary a b).or
        ((particleBranches rest).map fun (a, b) ↦ conditional .particle boundary a b)
    else (backBranches true rest).map fun (a, b) ↦ conditional .back boundary a b

/-- An unconditional affix that is put to the word. -/
def readAttached? (cs : List Char) : Option CellForm :=
  ((closing isRun (trimLeft cs)).map (plain .front)).or
    ((opening false (trimLeft cs)).map (plain .back))

/-- A word of its own. -/
def readParticle? (cs : List Char) : Option CellForm :=
  (closing (fun stem ↦ isRunAndBlanks stem && !isRun stem) (trimLeft cs)).map (plain .particle)

/-- The affix that a table cell holds. -/
def read? (cs : List Char) : Option CellForm :=
  (readConditional? cs).or ((readParticle? cs).or (readAttached? cs))

/-- The affix that a line of the derivational affixes holds. -/
def readDerivational? (cs : List Char) : Option CellForm :=
  let branching := (readCondition cs).bind fun (boundary, rest) ↦
    if boundary.isInitial then
      (frontBranches isRun rest).map fun (a, b) ↦ conditional .front boundary a b
    else (backBranches false rest).map fun (a, b) ↦ conditional .back boundary a b
  branching.or (readAttached? cs)

/-- Is this the rule `V(C)*# > __`, which lengthens the last vowel? -/
def isLengthening (cs : List Char) : Bool :=
  match stripStart "V(C)*#".toList cs with
  | some (c :: rest) =>
    isBlank c &&
      match trimLeft rest with
      | '>' :: d :: rest => isBlank d && (stripStart ['_', '_'] (trimLeft rest)).isSome
      | _ => false
  | _ => false

end CellForm

end Glossopoeia
