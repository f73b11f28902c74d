import Glossopoeia.Json.Number
import Glossopoeia.Json.Quoted

/-!
# Reading JSON

`parse` reads a whole text as one value.  The readers for values, items and fields call each other,
each with one unit of fuel less; every two steps consume a character, so twice the length of the
text is fuel enough.
-/

set_option autoImplicit false

namespace Glossopoeia.Json

/-- Objects and arrays nest this deep and no deeper. -/
def depthLimit : Nat := 127

/-- The text after the blanks that may stand between tokens. -/
def skipBlanks (cs : List Char) : List Char :=
  cs.dropWhile fun c ↦ c == ' ' || c == '\n' || c == '\t' || c == '\r'

/-- A quoted string; its text is missing if a surrogate has lost its other half. -/
def readString (cs : List Char) : Option (Option String × List Char) :=
  (readUnits cs).map fun (units, rest) ↦ ((joinUnits units).map String.ofList, rest)

/-- What an object with the given fields is: unreadable if one of its keys is. -/
def ofFields (fields : List (Option String × Json)) : Json :=
  match fields.mapM fun (key, value) ↦ key.map (·, value) with
  | some fields => .object fields
  | none => .unreadable

mutual

/-- Read a value, inside of which `room` levels may still be opened. -/
def readValue : Nat → Nat → List Char → Option (Json × List Char)
  | 0, _, _ => none
  | fuel + 1, room, cs =>
    match skipBlanks cs with
    | 'n' :: 'u' :: 'l' :: 'l' :: rest => some (.null, rest)
    | 't' :: 'r' :: 'u' :: 'e' :: rest => some (.bool true, rest)
    | 'f' :: 'a' :: 'l' :: 's' :: 'e' :: rest => some (.bool false, rest)
    | '"' :: rest => (readString rest).map fun (s, rest) ↦ (s.elim .unreadable .text, rest)
    | '[' :: rest =>
      match skipBlanks rest with
      | ']' :: rest => some (if room = 0 then .unreadable else .list [], rest)
      | rest => (readItems fuel (room - 1) rest).map fun (items, rest) ↦
        (if room = 0 then .unreadable else .list items, rest)
    | '{' :: rest =>
      match skipBlanks rest with
      | '}' :: rest => some (if room = 0 then .unreadable else .object [], rest)
      | rest => (readFields fuel (room - 1) rest).map fun (fields, rest) ↦
        (if room = 0 then .unreadable else ofFields fields, rest)
    | cs => (readNumeral cs).map fun (n, rest) ↦ (n.value, rest)

/-- Read the items of an array up to its closing bracket. -/
def readItems : Nat → Nat → List Char → Option (List Json × List Char)
  | 0, _, _ => none
  | fuel + 1, room, cs =>
    match readValue fuel room cs with
    | none => none
    | some (value, rest) =>
      match skipBlanks rest with
      | ',' :: rest =>
        (readItems fuel room rest).map fun (items, rest) ↦ (value :: items, rest)
      | ']' :: rest => some ([value], rest)
      | _ => none

/-- Read the fields of an object up to its closing brace. -/
def readFields : Nat → Nat → List Char → Option (List (Option String × Json) × List Char)
  | 0, _, _ => none
  | fuel + 1, room, cs =>
    match skipBlanks cs with
    | '"' :: rest =>
      match readString rest with
      | none => none
      | some (key, rest) =>
        match skipBlanks rest with
        | ':' :: rest =>
          match readValue fuel room rest with
          | none => none
          | some (value, rest) =>
            match skipBlanks rest with
            | ',' :: rest =>
              (readFields fuel room rest).map fun (fields, rest) ↦ ((key, value) :: fields, rest)
            | '}' :: rest => some ([(key, value)], rest)
            | _ => none
        | _ => none
    | _ => none

end

/-- Read a whole text as one value, its objects as they are written. -/
def parse (cs : List Char) : Option Json :=
  match readValue (2 * cs.length + 2) depthLimit cs with
  | some (value, rest) => if (skipBlanks rest).isEmpty then some value else none
  | none => none

/-- Read a whole text as one value proper, if it spells one that can be held. -/
def parseValue (s : String) : Option Json :=
  match parse s.toList with
  | some value => if value.isReadable then some value.normalize else none
  | none => none

end Glossopoeia.Json
