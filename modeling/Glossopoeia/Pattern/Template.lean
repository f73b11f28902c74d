import Glossopoeia.Pattern.Matcher
import Glossopoeia.Text.Basic
import Glossopoeia.Text.Digit

/-!
# Replacement texts

A replacement text names the groups of a match by `$1`, `$2` and so on; any other dollar sign stands
for itself.  There are two readings of it.  Spelling goes through a braced form, in which a group
that is followed by a letter cannot be misread: `$1` becomes `${1}` and a lone dollar sign `$$`.
Sounding out takes the text apart directly.  The two differ only for numbers beyond 64 bits.
-/

set_option autoImplicit false

namespace Glossopoeia

open Text

/-- A piece of a replacement text. -/
inductive TemplatePiece where
  /-- Text that is copied. -/
  | literal (text : List Char)
  /-- The text of a group; nothing if the group has none. -/
  | group (index : Nat)
deriving DecidableEq, Repr

/-- A replacement text, taken apart. -/
abbrev Template := List TemplatePiece

namespace Template

/-- The text that the pieces make, given the texts of the groups. -/
def fill (groups : Nat → Option (List Char)) (t : Template) : List Char :=
  t.flatMap fun
    | .literal text => text
    | .group index => (groups index).getD []

/-! ## The braced form -/

/-- The digits that a text begins with, and the rest of it. -/
def leadingDigits (cs : List Char) : List Char × List Char := cs.span isAsciiDigit

/-- The braced form of a replacement text. `digits` holds the digits read since a dollar sign,
latest first; it is absent outside of a group reference. -/
def bracedFrom : Option (List Char) → List Char → List Char
  | none, [] => []
  | none, c :: rest => if c = '$' then bracedFrom (some []) rest else c :: bracedFrom none rest
  | some ds, [] => reference ds
  | some ds, c :: rest =>
    if isAsciiDigit c then bracedFrom (some (c :: ds)) rest
    else if c = '$' then reference ds ++ bracedFrom (some []) rest
    else reference ds ++ c :: bracedFrom none rest
where
  /-- The braced form of a dollar sign and the digits after it, latest first. -/
  reference : List Char → List Char
    | [] => ['$', '$']
    | ds => '$' :: '{' :: (ds.reverse ++ ['}'])

/-- The braced form of a replacement text. -/
def braced (cs : List Char) : List Char := bracedFrom none cs

/-- The pieces of a text in braced form. -/
def ofBraced : List Char → Template
  | [] => []
  | '$' :: '$' :: rest => .literal ['$'] :: ofBraced rest
  | '$' :: '{' :: rest => inBraces [] rest
  | c :: rest => .literal [c] :: ofBraced rest
where
  /-- The pieces from within braces on; `digits` holds what has been read of the number. -/
  inBraces (digits : List Char) : List Char → Template
    | [] => [.literal ('$' :: '{' :: digits.reverse)]
    | '}' :: rest => .group (numberOf digits.reverse) :: ofBraced rest
    | c :: rest => inBraces (c :: digits) rest

/-! ## The direct reading -/

/-- The greatest number of a group that the direct reading knows. -/
def indexLimit : Nat := Nat.pow 2 64 - 1

/-- The piece that a dollar sign and the digits after it, latest first, stand for. -/
def directReference (ds : List Char) : TemplatePiece :=
  if ds.isEmpty || indexLimit < numberOf ds.reverse then .literal ['$']
  else .group (numberOf ds.reverse)

/-- The pieces of a replacement text; `digits` is as in `bracedFrom`. -/
def directFrom : Option (List Char) → List Char → Template
  | none, [] => []
  | none, c :: rest =>
    if c = '$' then directFrom (some []) rest else .literal [c] :: directFrom none rest
  | some ds, [] => [directReference ds]
  | some ds, c :: rest =>
    if isAsciiDigit c then directFrom (some (c :: ds)) rest
    else if c = '$' then directReference ds :: directFrom (some []) rest
    else directReference ds :: .literal [c] :: directFrom none rest

/-- The pieces of a replacement text. -/
def direct (cs : List Char) : Template := directFrom none cs

end Template

/-- The text with every match replaced by the filled template. -/
def Pattern.replaceAll (p : Pattern) (t : Template) (cs : List Char) : List Char :=
  p.replaceWith (fun m ↦ t.fill m.group?) cs

end Glossopoeia
