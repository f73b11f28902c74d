import Glossopoeia.Pattern.Basic
import Glossopoeia.Text.Basic
import Glossopoeia.Text.Digit

/-!
# Escapes of patterns

What a backslash and the characters after it mean, in a class and outside of one.  There are two
dialects: the regular one, and one that can also look around, recall a group and keep a match from
being reconsidered.

Not all escapes of the dialects are read.  A class of characters with a Unicode property (`\p`), the
start of what is reported of a match (`\K`) and the end of the match before (`\G`) are refused, and
groups are recalled by name or by number but not by a number counted from the place of the recall.
-/

set_option autoImplicit false

namespace Glossopoeia.Pattern

open Text

/-- The language that a pattern is written in. -/
inductive Dialect where
  /-- Patterns without memory. -/
  | regular
  /-- Patterns that can look around and recall groups. -/
  | extended
deriving DecidableEq, Repr

/-- What an escape means. -/
inductive Escape where
  /-- A character. -/
  | char (c : Char)
  /-- One character of a set. -/
  | set (s : CharSet)
  /-- A kind of place. -/
  | place (a : Place)
  /-- The text of a group, by number. -/
  | backreference (index : Nat)
  /-- The text of a group, by name. -/
  | namedBackreference (name : List Char)
deriving DecidableEq, Repr

/-- Is `c` an ASCII letter? -/
def isAsciiLetter (c : Char) : Bool := ('a' ≤ c && c ≤ 'z') || ('A' ≤ c && c ≤ 'Z')

/-- The classes with a letter of their own; the capital stands for the complement. -/
def namedSet : Char → Option CharSet
  | 'd' => some .digit
  | 'D' => some (.inverse .digit)
  | 's' => some .blank
  | 'S' => some (.inverse .blank)
  | 'w' => some .word
  | 'W' => some (.inverse .word)
  | _ => none

/-- The hex digits, as the extended dialect has them. -/
def hexSet : CharSet := .ofRanges [('0', '9'), ('A', 'F'), ('a', 'f')]

/-- The control characters with a letter of their own. -/
def controlChar : Char → Option Char
  | 'a' => some '\x07'
  | 'f' => some '\x0c'
  | 't' => some '\t'
  | 'n' => some '\n'
  | 'r' => some '\r'
  | 'v' => some '\x0b'
  | _ => none

/-- Read a code of `width` hex digits, or of any number of them in braces. -/
def readHex (width : Nat) : List Char → Option (Char × List Char)
  | '{' :: rest => do
    let (digits, rest) ← cut '}' rest
    return (← charOfHex digits, rest)
  | cs => do
    guard (width ≤ cs.length)
    return (← charOfHex (cs.take width), cs.drop width)

/-- The number of digits that a code escape has without braces. -/
def hexWidth : Char → Option Nat
  | 'x' => some 2
  | 'u' => some 4
  | 'U' => some 8
  | _ => none

/-- The place that a letter in braces names after the escape for a word edge. -/
def namedEdge (name : List Char) : Option Place :=
  if name = "start".toList then some .wordStart
  else if name = "end".toList then some .wordEnd
  else if name = "start-half".toList then some .noWordBefore
  else if name = "end-half".toList then some .noWordAfter
  else none

/-- Read the rest of the escape for a word edge, which may go on with a name in braces. -/
def readEdge (cs : List Char) : Option (Escape × List Char) :=
  match cs with
  | '{' :: c :: rest =>
    if isAsciiLetter c || c == '-' then do
      let (name, rest) ← cut '}' (c :: rest)
      return (.place (← namedEdge name), rest)
    else some (.place .wordEdge, cs)
  | _ => some (.place .wordEdge, cs)

/-- Is `c` part of a group's name in the extended dialect? -/
def isNameChar (c : Char) : Bool := isWordChar c

/-- Read a name between angle brackets. -/
def readName : List Char → Option (List Char × List Char)
  | '<' :: rest => do
    let (name, rest) ← cut '>' rest
    guard (!name.isEmpty && name.all isNameChar)
    return (name, rest)
  | _ => none

/-- The places with a letter of their own. -/
def namedPlace : Char → Option Place
  | 'A' => some .textStart
  | 'z' => some .textEnd
  | 'B' => some .noWordEdge
  | '<' => some .wordStart
  | '>' => some .wordEnd
  | _ => none

/-- Escapes that only the extended dialect has, or has otherwise. -/
def readExtension (inClass : Bool) (c : Char) (rest : List Char) :
    Option (Escape × List Char) :=
  if c == 'e' then some (.char '\x1b', rest)
  else if c == 'h' then some (.set hexSet, rest)
  else if c == 'H' then some (.set (.inverse hexSet), rest)
  else if c == 'b' && inClass then some (.char '\x08', rest)
  else if isAsciiDigit c && !inClass then
    let digits := rest.takeWhile isAsciiDigit
    some (.backreference (numberOf (c :: digits)), rest.drop digits.length)
  else if c == 'k' && !inClass then
    (readName rest).map fun (name, rest) ↦ (.namedBackreference name, rest)
  else none

/-- Does an escape of `c` stand for `c` itself?  In the regular dialect only ASCII characters other
than letters, digits and angle brackets may be escaped so. -/
def isSelfEscape (dialect : Dialect) (c : Char) : Bool :=
  match dialect with
  | .regular => c.toNat < 0x80 && !isAsciiLetter c && !isAsciiDigit c && c != '<' && c != '>'
  | .extended => !isAsciiLetter c && !isAsciiDigit c

/-- Read an escape after its backslash. -/
def readEscape (dialect : Dialect) (inClass : Bool) : List Char → Option (Escape × List Char)
  | [] => none
  | c :: rest =>
    match namedSet c, controlChar c, hexWidth c with
    | some s, _, _ => some (.set s, rest)
    | none, some d, _ => some (.char d, rest)
    | none, none, some width => (readHex width rest).map fun (d, rest) ↦ (.char d, rest)
    | none, none, none =>
      let extension := if dialect = .extended then readExtension inClass c rest else none
      match extension with
      | some found => some found
      | none =>
        if !inClass && c == 'b' then readEdge rest
        else
          match if inClass then none else namedPlace c with
          | some a => some (.place a, rest)
          | none => if isSelfEscape dialect c then some (.char c, rest) else none

end Glossopoeia.Pattern
