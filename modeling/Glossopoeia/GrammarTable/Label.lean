import Glossopoeia.Dictionary
import Glossopoeia.Error
import Glossopoeia.Text.Case
import Glossopoeia.Text.Basic
import Glossopoeia.Text.WordChar
import Glossopoeia.Text.DecimalDigit

/-!
# Labels of grammar tables

The rows, columns and blocks of a table are labelled, and a cell names its place by the
abbreviations of its labels: `N.S` is the cell of `Nominative` and `Singular`.  This module
abbreviates labels and resolves such paths, taking the longest known abbreviation first.
-/

set_option autoImplicit false

namespace Glossopoeia

open Text

/-- The names that the labels of a table stand for, by their abbreviations. -/
abbrev Labels := Dictionary String

namespace Labels

/-- The ordinal of a digit: `1` gives `1st`, and whatever has no ending of its own takes `th`. -/
def ordinal (digit : List Char) : List Char :=
  let digit := trim digit
  if digit = ['1'] then "1st".toList
  else if digit = ['2'] then "2nd".toList
  else if digit = ['3'] then "3rd".toList
  else digit ++ ['t', 'h']

/-- The capitals of a label, and what else has no other upper-case form, with a full stop for each
space and none at the end. -/
def abbreviate (label : List Char) : List Char :=
  let kept := label.filterMap fun c ↦
    if c = ' ' then some '.' else if isUpperForm c then some c else none
  trim (kept.reverse.dropWhile (· == '.')).reverse

/-- A digit and the word characters after it, blanks before left out, and what follows. -/
def leadingOrdinal (label : List Char) : Option (Char × List Char) :=
  match trimLeft label with
  | d :: c :: rest =>
    if isDecimalDigit d && isWordChar c then some (d, rest.dropWhile isWordChar) else none
  | _ => none

/-- The words after an ordinal: they begin with a word character and stand on one line. -/
def ordinalName (rest : List Char) : Option (List Char) :=
  match rest, trimLeft rest with
  | b :: _, c :: name =>
    let line := before '\n' (c :: name)
    if isBlank b && isWordChar c && allBlank ((c :: name).drop line.length) then some (trim line)
    else none
  | _, _ => none

/-- Enter a name under the abbreviation of its label. -/
def addName (labels : Labels) (label : List Char) : Labels :=
  labels.insert (String.ofList (abbreviate label)) (String.ofList (capitalize label))

/-- Enter an ordinal under its digit. -/
def addOrdinal (labels : Labels) (digit : Char) : Labels :=
  labels.insert digit.toString (String.ofList (ordinal [digit]))

/-- Enter a label.  An ordinal is entered under its digit, and words after it under their own
abbreviation. -/
def add (labels : Labels) (label : List Char) : Labels :=
  match leadingOrdinal label with
  | some (d, rest) =>
    if allBlank rest then labels.addOrdinal d
    else
      match ordinalName rest with
      | some name => (labels.addOrdinal d).addName name
      | none => labels.addName (trim label)
  | none => labels.addName (trim label)

/-- Enter the three persons, which a table of pronouns has without being told. -/
def addPersons (labels : Labels) : Labels :=
  ['1', '2', '3'].foldl
    (fun labels d ↦ labels.insert d.toString (String.ofList (ordinal [d] ++ " Person".toList)))
    labels

/-! ## Paths -/

/-- The parts of a path, empty ones left out. -/
def pathParts (path : List Char) : List String :=
  ((split '.' path).filter fun part ↦ !part.isEmpty).map String.ofList

/-- Parts joined by full stops. -/
def joinParts (parts : List String) : String := String.intercalate "." parts

/-- The longest of the first `n` prefixes of the parts that is an abbreviation: its name, and how
many parts it takes. -/
def longest? (labels : Labels) (parts : List String) : Nat → Option (String × Nat)
  | 0 => none
  | n + 1 =>
    match labels.get? (joinParts (parts.take (n + 1))) with
    | some name => some (name, n + 1)
    | none => longest? labels parts n

/-- What a path resolves to. -/
inductive Resolution where
  /-- The names of its segments. -/
  | names (list : List String)
  /-- No abbreviation begins the remaining parts. -/
  | stuck (rest : List String)
deriving DecidableEq, Repr

/-- Cut the parts into abbreviations, at each step the longest one.  Each takes a part at least, so
the number of parts is fuel enough. -/
def segment (labels : Labels) : Nat → List String → Resolution
  | _, [] => .names []
  | 0, parts => .stuck parts
  | fuel + 1, parts =>
    match labels.longest? parts parts.length with
    | none => .stuck parts
    | some (name, n) =>
      match segment labels fuel (parts.drop n) with
      | .names list => .names (name :: list)
      | .stuck rest => .stuck rest

/-- The declension that a path names; `line` is the line it stands in. -/
def resolve (labels : Labels) (path : List Char) (line : String) : Except Error String :=
  let parts := pathParts path
  match labels.segment parts.length parts with
  | .names list => .ok (String.intercalate " " list)
  | .stuck rest => .error (.unmappedDeclension (joinParts rest) line)

end Labels

end Glossopoeia
