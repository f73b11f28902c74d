import Glossopoeia.Json.Quoted
import Glossopoeia.Json.Basic
import Glossopoeia.Decimal.Shortest

/-!
# Writing JSON

`render` writes a value on one line without blanks.  `pretty` gives each item and each field a line
of its own, two spaces deeper than what holds it; empty arrays and objects stay on one line.
-/

set_option autoImplicit false

namespace Glossopoeia.Json

/-- The digits of a whole number, after a minus sign if it is negative. -/
def renderInt (n : Int) : List Char :=
  (if n < 0 then ['-'] else []) ++ Decimal.digitsOf n.natAbs

/-- A value that is neither an array nor an object. -/
def renderScalar : Json → List Char
  | bool true => ['t', 'r', 'u', 'e']
  | bool false => ['f', 'a', 'l', 's', 'e']
  | int n => renderInt n
  | float x => Decimal.renderFloat x
  | text s => quote s
  | _ => ['n', 'u', 'l', 'l']

mutual

/-- A value on one line. -/
def render : Json → List Char
  | list [] => ['[', ']']
  | list (v :: rest) => '[' :: (render v ++ renderItems rest)
  | object [] => ['{', '}']
  | object ((k, v) :: rest) => '{' :: (quote k ++ ':' :: (render v ++ renderFields rest))
  | v => renderScalar v

/-- The items of an array after the first, with the closing bracket. -/
def renderItems : List Json → List Char
  | [] => [']']
  | v :: rest => ',' :: (render v ++ renderItems rest)

/-- The fields of an object after the first, with the closing brace. -/
def renderFields : List (String × Json) → List Char
  | [] => ['}']
  | (k, v) :: rest => ',' :: (quote k ++ ':' :: (render v ++ renderFields rest))

end

/-- A line feed and the indentation of `depth` levels. -/
def newline (depth : Nat) : List Char := '\n' :: List.replicate (2 * depth) ' '

mutual

/-- A value over as many lines as it has parts, itself `depth` levels deep. -/
def pretty (depth : Nat) : Json → List Char
  | list [] => ['[', ']']
  | list (v :: rest) =>
    '[' :: (newline (depth + 1) ++ pretty (depth + 1) v ++ prettyItems depth rest)
  | object [] => ['{', '}']
  | object ((k, v) :: rest) =>
    '{' :: (newline (depth + 1) ++ quote k ++ ':' :: ' ' :: (pretty (depth + 1) v ++
      prettyFields depth rest))
  | v => renderScalar v

/-- The items of an array after the first, with the closing bracket. -/
def prettyItems (depth : Nat) : List Json → List Char
  | [] => newline depth ++ [']']
  | v :: rest =>
    ',' :: (newline (depth + 1) ++ pretty (depth + 1) v ++ prettyItems depth rest)

/-- The fields of an object after the first, with the closing brace. -/
def prettyFields (depth : Nat) : List (String × Json) → List Char
  | [] => newline depth ++ ['}']
  | (k, v) :: rest =>
    ',' :: (newline (depth + 1) ++ quote k ++ ':' :: ' ' :: (pretty (depth + 1) v ++
      prettyFields depth rest))

end

/-- A value on one line, as a string. -/
def compress (v : Json) : String := String.ofList (render v)

end Glossopoeia.Json
