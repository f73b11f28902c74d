import Glossopoeia.Lexicon.Entry

/-!
# Leaving out repetitions

Of entries with the same value only the first is kept.
-/

set_option autoImplicit false

namespace Glossopoeia

/-- The entries whose value is neither in `seen` nor that of an earlier entry. -/
def dedupFrom (seen : List LexiconEntry.Value) : List LexiconEntry → List LexiconEntry
  | [] => []
  | e :: rest =>
    if seen.contains e.value then dedupFrom seen rest
    else e :: dedupFrom (e.value :: seen) rest

/-- The entries that have not the value of an earlier one. -/
def dedupLexicon (entries : List LexiconEntry) : List LexiconEntry := dedupFrom [] entries

end Glossopoeia
