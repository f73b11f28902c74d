import Glossopoeia.Text.Basic

/-!
# The left side of a spelling rule

The left side stands for one or more phonemes: braces list alternatives, and parentheses hold a tail
that may be missing.
-/

set_option autoImplicit false

namespace Glossopoeia.Phonemes

open Text

/-- What stands before the last `}` of the line. -/
def untilBrace (cs : List Char) : Option (List Char) :=
  (cutLast '}' (before '\n' cs)).map Prod.fst

/-- What precedes an opening brace and what the braces hold.  The last brace counts that has text
before it, all of it without blanks, and a closing brace after it. -/
def bracedFrom (taken : List Char) : List Char → Option (List Char × List Char)
  | [] => none
  | c :: rest =>
    if isBlank c then none
    else
      (bracedFrom (c :: taken) rest).or
        (if c = '{' && !taken.isEmpty then
          (untilBrace rest).map fun inner ↦ (taken.reverse, inner)
        else none)

/-- What braces at the start hold. -/
def leadingBraces : List Char → Option (List Char)
  | '{' :: rest => untilBrace rest
  | _ => none

/-- The tail in parentheses that a text opens with, if nothing but blanks follows it. -/
def tailOf (cs : List Char) : Option (List Char) :=
  match trimLeft cs with
  | '(' :: rest =>
    let rest := trimLeft rest
    let run := rest.takeWhile isSolid
    match run.isEmpty, trim (rest.drop run.length) with
    | true, _ => none
    | _, [')'] => some run
    | _, [] =>
      match cutLast ')' run with
      | some (c :: inner, []) => some (c :: inner)
      | _ => none
    | _, _ => none
  | _ => none

/-- A stem without blanks and a tail in parentheses; the longest stem counts. -/
def optionalFrom (taken : List Char) (cs : List Char) : Option (List Char × List Char) :=
  let here := if taken.isEmpty then none else (tailOf cs).map fun tail ↦ (taken.reverse, tail)
  match cs with
  | [] => here
  | c :: rest => if isBlank c then here else (optionalFrom (c :: taken) rest).or here

/-- The phonemes of a left side.  Of a stem with an optional tail the longer form comes first, so
that it is looked for first. -/
def expand (left : List Char) : List (List Char) :=
  match bracedFrom [] left with
  | some (stem, inner) => (split ',' inner).map (stem ++ ·)
  | none =>
    match leadingBraces left with
    | some inner => split ',' inner
    | none =>
      match optionalFrom [] left with
      | some (stem, tail) => [stem ++ tail, stem]
      | none => [left]

end Glossopoeia.Phonemes
