import Glossopoeia.Pattern.Escape

/-!
# Classes in brackets

A class lists characters, ranges, escapes and further classes, and may combine such lists by
intersection `&&`, difference `--` and symmetric difference `~~`, which bind from left to right.
After the opening bracket, and a `^` that complements the class, any number of hyphens stand for
themselves, and so does a closing bracket if nothing precedes it.
-/

set_option autoImplicit false

namespace Glossopoeia.Pattern

open Text

/-- How two lists of a class are combined. -/
inductive ClassOp where
  /-- The characters of both. -/
  | inter
  /-- The characters of the first alone. -/
  | diff
  /-- The characters of exactly one. -/
  | symmDiff
deriving DecidableEq, Repr

/-- The set that the operation makes of two. -/
def ClassOp.apply : ClassOp → CharSet → CharSet → CharSet
  | inter, s, t => .inter s t
  | diff, s, t => .diff s t
  | symmDiff, s, t => .symmDiff s t

/-- What has been read of a class: the list in hand, and the set it is to be combined with. -/
structure ClassSoFar where
  /-- The union of the items read since the last operator. -/
  items : CharSet
  /-- What stands before the last operator. -/
  pending : Option (CharSet × ClassOp)

namespace ClassSoFar

/-- Nothing read yet. -/
def start : ClassSoFar := ⟨.empty, none⟩

/-- One more item. -/
def add (so : ClassSoFar) (s : CharSet) : ClassSoFar := { so with items := .union so.items s }

/-- The set read so far. -/
def value (so : ClassSoFar) : CharSet :=
  match so.pending with
  | none => so.items
  | some (left, op) => op.apply left so.items

/-- Begin a new list after an operator. -/
def operate (so : ClassSoFar) (op : ClassOp) : ClassSoFar := ⟨.empty, some (so.value, op)⟩

end ClassSoFar

/-- The ASCII classes that are named between `[:` and `:]`. -/
def asciiSet (name : List Char) : Option CharSet :=
  (List.lookup (String.ofList name)
    [("alnum", [('0', '9'), ('A', 'Z'), ('a', 'z')]),
     ("alpha", [('A', 'Z'), ('a', 'z')]),
     ("ascii", [('\x00', '\x7f')]),
     ("blank", [('\t', '\t'), (' ', ' ')]),
     ("cntrl", [('\x00', '\x1f'), ('\x7f', '\x7f')]),
     ("digit", [('0', '9')]),
     ("graph", [('!', '~')]),
     ("lower", [('a', 'z')]),
     ("print", [(' ', '~')]),
     ("punct", [('!', '/'), (':', '@'), ('[', '\x60'), ('\x7b', '~')]),
     ("space", [('\t', '\r'), (' ', ' ')]),
     ("upper", [('A', 'Z')]),
     ("word", [('0', '9'), ('A', 'Z'), ('_', '_'), ('a', 'z')]),
     ("xdigit", [('0', '9'), ('A', 'F'), ('a', 'f')])]).map CharSet.ofRanges

/-- Read a named ASCII class after its opening bracket. -/
def readAsciiClass : List Char → Option (CharSet × List Char)
  | ':' :: rest => do
    let (negated, rest) := match rest with
      | '^' :: rest => (true, rest)
      | _ => (false, rest)
    let (name, rest) ← cut ':' rest
    let s ← asciiSet name
    match rest with
    | ']' :: rest => some (if negated then .inverse s else s, rest)
    | _ => none
  | _ => none

/-- An item of a class: a character, which may open a range, or a set. -/
def readClassItem (dialect : Dialect) : List Char → Option ((Char ⊕ CharSet) × List Char)
  | [] => none
  | '\\' :: rest =>
    match readEscape dialect true rest with
    | some (.char c, rest) => some (.inl c, rest)
    | some (.set s, rest) => some (.inr s, rest)
    | _ => none
  | c :: rest => some (.inl c, rest)

/-- Read a range or a single item. -/
def readClassRange (dialect : Dialect) (cs : List Char) : Option (CharSet × List Char) := do
  let (first, rest) ← readClassItem dialect cs
  let single := match first with
    | .inl c => CharSet.single c
    | .inr s => s
  match rest with
  | '-' :: next :: _ =>
    if next == ']' || next == '-' then some (single, rest)
    else
      match first, readClassItem dialect (rest.drop 1) with
      | .inl c, some (.inl d, rest) => if c ≤ d then some (.range c d, rest) else none
      | _, _ => none
  | _ => some (single, rest)

/-- The set itself, or its complement. -/
def complementIf (negated : Bool) (s : CharSet) : CharSet := if negated then .inverse s else s

/-- What the text after an opening bracket says at its start: is the class a complement, which of
its first characters stand for themselves, and where its list goes on. -/
def openClass (cs : List Char) : Bool × ClassSoFar × List Char :=
  let (negated, rest) := match cs with
    | '^' :: rest => (true, rest)
    | _ => (false, cs)
  match rest with
  | ']' :: rest => (negated, ClassSoFar.start.add (.single ']'), rest)
  | '-' :: rest =>
    (negated, ClassSoFar.start.add (.single '-'), rest.dropWhile (· == '-'))
  | rest => (negated, ClassSoFar.start, rest)

/-- The class read up to its closing bracket.  Each step consumes a character, so the length of the
text is fuel enough. -/
def readClassBody (dialect : Dialect) :
    Nat → ClassSoFar → List Char → Option (CharSet × List Char)
  | 0, _, _ => none
  | fuel + 1, so, cs =>
    match cs with
    | [] => none
    | ']' :: rest => some (so.value, rest)
    | '[' :: rest =>
      match readAsciiClass rest with
      | some (s, rest) => readClassBody dialect fuel (so.add s) rest
      | none =>
        let (negated, inner, rest) := openClass rest
        match readClassBody dialect fuel inner rest with
        | some (s, rest) => readClassBody dialect fuel (so.add (complementIf negated s)) rest
        | none => none
    | '&' :: '&' :: rest => readClassBody dialect fuel (so.operate .inter) rest
    | '-' :: '-' :: rest => readClassBody dialect fuel (so.operate .diff) rest
    | '~' :: '~' :: rest => readClassBody dialect fuel (so.operate .symmDiff) rest
    | _ =>
      match readClassRange dialect cs with
      | some (s, rest) => readClassBody dialect fuel (so.add s) rest
      | none => none

/-- Read a class after its opening bracket. -/
def readClass (dialect : Dialect) (cs : List Char) : Option (CharSet × List Char) :=
  let (negated, so, rest) := openClass cs
  (readClassBody dialect (rest.length + 1) so rest).map fun (s, rest) ↦
    (complementIf negated s, rest)

end Glossopoeia.Pattern
