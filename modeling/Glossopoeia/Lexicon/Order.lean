import Glossopoeia.Lexicon.Entry
import Glossopoeia.Text.Case

/-!
# Alphabetical order

A language has an alphabet of its own.  Every spelled word has an index, a number in which the first
character counts most and each further one a hundredth of the one before, and words are in order if
their indices are.  Stress marks and spaces count nothing but keep their place, and a combining mark
adds a little to the letter it stands on.

The index is defined for any kind of numbers that can be added, multiplied and divided: the library
computes with doubles, and statements about the order are made for exact numbers.
-/

set_option autoImplicit false

namespace Glossopoeia

open Text

/-- An alphabet. -/
structure LexicalOrder where
  /-- The letters in order; the first character of each counts. -/
  letters : List String
deriving DecidableEq, Repr

namespace LexicalOrder

/-- The alphabet of a language that has none of its own. -/
def defaultAlphabet : String := "abcdefghijklmnoöpqrstuvwxyz"

/-- The mark that keeps two parts of a word together. -/
def wordJoiner : Char := '\u2060'

/-- The alphabet whose letters are the characters of a text, the word joiner and the space. -/
def ofAlphabet (alphabet : String) : LexicalOrder :=
  let given := trim alphabet.toList
  let characters := if given.isEmpty then defaultAlphabet.toList else given
  ⟨(characters ++ [wordJoiner, ' ']).map Char.toString⟩

/-- The place of the first letter that begins with `c`. -/
def position? (o : LexicalOrder) (c : Char) : Option Nat :=
  o.letters.findIdx? fun letter ↦ letter.toList.head? == some c

/-- Does `c` combine with the letter before it? -/
def isDiacritic (c : Char) : Bool := 0x300 ≤ c.toNat && c.toNat ≤ 0x36F

/-- The ratio of a character's weight to that of the next one. -/
def radix : Nat := 100

/-- What a letter with an optional diacritic counts.  One that the alphabet does not have comes
after all others, whatever it carries. -/
def score (o : LexicalOrder) (c : Char) (diacritic : Option Char) : Nat :=
  match o.position? c with
  | some n => n * radix + diacritic.elim 0 fun d ↦ d.toNat - 0x300
  | none => (o.letters.length + 1) * radix

/-- Is the character left out of the index? -/
def isSilent (c : Char) : Bool := c == 'ˈ' || c == ' '

/-- The characters of a text that count, each with its place in the text and its score. -/
def terms (o : LexicalOrder) (place : Nat) : List Char → List (Nat × Nat)
  | [] => []
  | [c] => if isSilent c then [] else [(place, o.score c none)]
  | c :: d :: rest =>
    if isDiacritic d then
      let others := terms o (place + 2) rest
      if isSilent c then others else (place, o.score c (some d)) :: others
    else
      let others := terms o (place + 1) (d :: rest)
      if isSilent c then others else (place, o.score c none) :: others

section Index

variable {α : Type} [Add α] [Mul α] [Div α] [NatCast α]

/-- `r * a ^ n`, by repeated squaring. -/
def powerOnto (r a : α) (n : Nat) : α :=
  let r := if n % 2 = 1 then r * a else r
  if _h : n / 2 = 0 then r else powerOnto r (a * a) (n / 2)
termination_by n
decreasing_by omega

/-- The weight of a place against that of the place `n` further on. -/
def weight (n : Nat) : α := powerOnto ((1 : Nat) : α) ((radix : Nat) : α) n

/-- Take in one more term, from the last to the first.  The pair holds the sum so far, counted in
the weight of its first place, and that place. -/
def addTerm (term : Nat × Nat) (sum : α × Nat) : α × Nat :=
  (sum.1 / weight (sum.2 - term.1) + ((term.2 : Nat) : α), term.1)

/-- The index of a text in lower case. -/
def indexOf (o : LexicalOrder) (cs : List Char) : α :=
  let (sum, place) := (o.terms 0 cs).foldr addTerm (((0 : Nat) : α), cs.length)
  sum / weight place

end Index

instance : NatCast Float := ⟨fun n ↦ n.toFloat⟩

/-- The index of a spelled word. -/
def index (o : LexicalOrder) (spelled : String) : Float := o.indexOf (lowercase spelled.toList)

/-- A number that orders doubles as they are ordered, minus zero before zero. -/
def totalKey (x : Float) : Int :=
  let bits := x.toBits.toNat
  let signBit := Nat.pow 2 63
  if bits < signBit then bits else (signBit : Int) - 1 - bits

/-- What words are sorted by. -/
def key (o : LexicalOrder) (spelled : String) : Int := totalKey (o.index spelled)

/-- How two spelled words are ordered. -/
def compareSpelled (o : LexicalOrder) (a b : String) : Ordering := compare (o.key a) (o.key b)

/-- How two entries are ordered. -/
def compareEntries (o : LexicalOrder) (a b : LexiconEntry) : Ordering :=
  o.compareSpelled a.spelled b.spelled

/-- Does `a` come before `b`? -/
def isLess (o : LexicalOrder) (a b : LexiconEntry) : Bool := o.compareEntries a b == .lt

/-- Does `a` come after `b`? -/
def isGreater (o : LexicalOrder) (a b : LexiconEntry) : Bool := o.compareEntries a b == .gt

/-- Does `a` come before `b`, or have they the same value?  A tie alone is not enough. -/
def isLessOrSame (o : LexicalOrder) (a b : LexiconEntry) : Bool :=
  o.isLess a b || a.sameValue b

/-- Does `a` come after `b`, or have they the same value?  A tie alone is not enough. -/
def isGreaterOrSame (o : LexicalOrder) (a b : LexiconEntry) : Bool :=
  o.isGreater a b || a.sameValue b

/-- Sort by a key; what has the same key stays as it was. -/
def sortByKey {α : Type} (key : α → Int) (list : List α) : List α :=
  ((list.map fun a ↦ (key a, a)).mergeSort fun x y ↦ decide (x.1 ≤ y.1)).map Prod.snd

/-- The entries in order; tied ones stay as they were. -/
def sortEntries (o : LexicalOrder) (entries : List LexiconEntry) : List LexiconEntry :=
  sortByKey (fun e ↦ o.key e.spelled) entries

end LexicalOrder

end Glossopoeia
