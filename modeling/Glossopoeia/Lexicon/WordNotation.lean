import Glossopoeia.Lexicon.Entry
import Glossopoeia.Error

/-!
# The written form of a word

`dog, hound : n = do < old` names the glosses of a word, its part of speech, how it sounds and, as a
remark, where it comes from.
-/

set_option autoImplicit false

namespace Glossopoeia

open Text

/-- A word as the word list describes it. -/
structure WordNotation where
  /-- What it means; there is always at least one gloss, though it may be empty. -/
  glosses : List String
  /-- Its part of speech. -/
  partOfSpeech : String
  /-- How it sounds. -/
  phonetic : String
deriving DecidableEq, Repr

namespace WordNotation

/-- Read the written form of a word. -/
def read (line : String) : Except Error WordNotation :=
  match cut ':' line.toList with
  | none => .error (.malformedWord line)
  | some (english, rest) =>
    match cut '=' rest with
    | none => .error (.malformedWord line)
    | some (pos, phonetic) =>
      .ok {
        glosses := (split ',' (trim english)).map fun gloss ↦ String.ofList (trim gloss)
        partOfSpeech := String.ofList (trim pos)
        phonetic := String.ofList (trim (before '<' phonetic)) }

end WordNotation

end Glossopoeia
