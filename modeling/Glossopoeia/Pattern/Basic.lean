import Glossopoeia.Pattern.CharSet

/-!
# Patterns

A pattern describes texts and what to remember of them.  Of several ways to match at one place the
first in order of preference counts: the earlier alternative, and for a repetition one more round
before none, unless it is lazy.  `Matcher` gives patterns this meaning and `Reader` reads them from
their written form.
-/

set_option autoImplicit false

namespace Glossopoeia

/-- A condition on a place in a text. -/
inductive Place where
  /-- The start of the text. -/
  | textStart
  /-- The end of the text. -/
  | textEnd
  /-- The start of the text or just after a line feed. -/
  | lineStart
  /-- The end of the text or just before a line feed. -/
  | lineEnd
  /-- Between a word character and something else. -/
  | wordEdge
  /-- Anywhere but at a word edge. -/
  | noWordEdge
  /-- Before the first character of a word. -/
  | wordStart
  /-- After the last character of a word. -/
  | wordEnd
  /-- Not after a word character. -/
  | noWordBefore
  /-- Not before a word character. -/
  | noWordAfter
deriving DecidableEq, Repr

/-- A pattern. -/
inductive Pattern where
  /-- The empty text. -/
  | empty
  /-- One character of a set. -/
  | one (s : CharSet)
  /-- The empty text, at a place of the given kind. -/
  | place (a : Place)
  /-- A text of `p`, then one of `q`. -/
  | seq (p q : Pattern)
  /-- A text of `p`, or else one of `q`. -/
  | alt (p q : Pattern)
  /-- A text of `p`, remembered under a number. -/
  | group (index : Nat) (p : Pattern)
  /-- At least `least` and at most `most` texts of `p`, as many as possible or, if not `greedy`, as
  few as possible. -/
  | repeated (p : Pattern) (least : Nat) (most : Option Nat) (greedy : Bool)
  /-- The text remembered under a number. -/
  | backreference (index : Nat)
  /-- The empty text, where a text of `p` follows or, if `expected` is false, where none does. -/
  | ahead (expected : Bool) (p : Pattern)
  /-- The empty text, where the last `width` characters are a text of `p` or, if `expected` is
  false, where they are not. -/
  | behind (expected : Bool) (width : Nat) (p : Pattern)
  /-- The preferred text of `p`, and no other. -/
  | atomic (p : Pattern)
deriving DecidableEq, Repr

namespace Pattern

instance : Inhabited Pattern := ⟨empty⟩

/-- The single character `c`. -/
def char (c : Char) : Pattern := one (CharSet.single c)

/-- One pattern after the other. -/
def sequence : List Pattern → Pattern
  | [] => empty
  | [p] => p
  | p :: rest => seq p (sequence rest)

/-- Each character in turn. -/
def literal (cs : List Char) : Pattern := sequence (cs.map char)

/-- The number of characters of each text of the pattern, where all have the same. -/
def width? : Pattern → Option Nat
  | empty => some 0
  | one _ => some 1
  | place _ => some 0
  | seq p q => do return (← p.width?) + (← q.width?)
  | alt p q => do
    let m ← p.width?
    let n ← q.width?
    if m = n then some m else none
  | group _ p => p.width?
  | repeated p least most _ => do
    let n ← p.width?
    if most = some least then some (least * n) else none
  | backreference _ => none
  | ahead _ _ => some 0
  | behind _ _ _ => some 0
  | atomic p => p.width?

end Pattern

end Glossopoeia
