/-!
# Blanks

The white space of all scripts: what trimming removes, what separates words, and what `\s` means in
a pattern.  The word joiner and the zero-width space are not among it.
-/

set_option autoImplicit false

namespace Glossopoeia.Text

/-- Is `c` white space? -/
def isBlank (c : Char) : Bool :=
  let n := c.toNat
  (0x9 ≤ n && n ≤ 0xD) || n == 0x20 || n == 0x85 || n == 0xA0 || n == 0x1680 ||
    (0x2000 ≤ n && n ≤ 0x200A) || n == 0x2028 || n == 0x2029 || n == 0x202F || n == 0x205F ||
    n == 0x3000

/-- Is `c` anything but white space? -/
def isSolid (c : Char) : Bool := !isBlank c

example : isBlank '\u00a0' = true ∧ isBlank '\u2060' = false ∧ isBlank '\u200b' = false := by
  decide

end Glossopoeia.Text
