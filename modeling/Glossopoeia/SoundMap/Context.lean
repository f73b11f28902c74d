import Glossopoeia.SoundMap.Basic
import Glossopoeia.Text.Basic

/-!
# Contexts of spelling rules

A spelling rule may say where it holds: `#_` at the start of a word, `_#` at its end, `C_` after a
consonant and so on.  `Context.read?` reads the marker and `Context.rule` builds the patterns, in
which the neighbouring sound is captured so that the replacement can put it back.
-/

set_option autoImplicit false

namespace Glossopoeia

open Text

/-- Where a spelling rule holds. -/
inductive Context where
  /-- At the start of a word: `#_`. -/
  | initial
  /-- At the end of a word: `_#`. -/
  | final
  /-- For a whole word: `#_#`. -/
  | whole
  /-- After a consonant: `C_`. -/
  | afterConsonant
  /-- After a consonant at the end of a word: `C_#`. -/
  | afterConsonantFinal
  /-- For a doubled vowel: `VV`. -/
  | doubledVowel
  /-- Before a given text: `_x`. -/
  | followedBy (next : List Char)
  /-- Before anything but the given characters: `!_` and the characters in braces. -/
  | notFollowedBy (excluded : List Char)
  /-- After a given text at the end of a word: `x_#`. -/
  | afterFinal (previous : List Char)
deriving DecidableEq, Repr

namespace Context

/-- What stands before the last `_#` of a run without blanks, if anything does. -/
def beforeFinalMark : List Char → Option (List Char)
  | c :: '_' :: '#' :: rest =>
    match beforeFinalMark ('_' :: '#' :: rest) with
    | some previous => some (c :: previous)
    | none => some [c]
  | c :: rest => (beforeFinalMark rest).map (c :: ·)
  | [] => none

/-- The marker with its commas left out, up to the last closing brace of the run. -/
def excludedBy (run : List Char) : Option (List Char) :=
  match cutLast '}' run with
  | some (c :: inner, _) => some ((c :: inner).filter (· != ','))
  | _ => none

/-- Read a marker that names a neighbouring text. -/
def readNeighbour (marker : List Char) : Option Context :=
  let run := marker.takeWhile isSolid
  match run with
  | '_' :: c :: rest => some (.followedBy (c :: rest))
  | '!' :: '_' :: '{' :: rest =>
    match excludedBy rest with
    | some excluded => some (.notFollowedBy excluded)
    | none => (beforeFinalMark run).map .afterFinal
  | _ => (beforeFinalMark run).map .afterFinal

/-- Read the marker of a context. -/
def read? (marker : List Char) : Option Context :=
  if marker = "#_".toList then some .initial
  else if marker = "_#".toList then some .final
  else if marker = "#_#".toList then some .whole
  else if marker = "C_".toList then some .afterConsonant
  else if marker = "C_#".toList then some .afterConsonantFinal
  else if marker = "VV".toList then some .doubledVowel
  else readNeighbour marker

/-- A rule from its parts: phoneme, romanization and the two patterns. -/
def ruleOf (phoneme roman spelling sounding : List Char) : SoundRule :=
  ⟨String.ofList phoneme, String.ofList roman, String.ofList spelling, String.ofList sounding⟩

/-- The reference to the first group. -/
def firstGroup : List Char := ['$', '1']

/-- A pattern that is remembered. -/
def grouped (cs : List Char) : List Char := '(' :: (cs ++ [')'])

/-- The rule that spells `phoneme` as `roman` in a context. -/
def rule (phoneme roman : List Char) : Context → SoundRule
  | initial => ruleOf phoneme roman ('^' :: phoneme) ('^' :: roman)
  | final => ruleOf phoneme roman (phoneme ++ ['$']) (roman ++ ['$'])
  | whole => ruleOf phoneme roman ('^' :: phoneme ++ ['$']) ('^' :: roman ++ ['$'])
  | afterConsonant =>
    ruleOf (firstGroup ++ phoneme) (firstGroup ++ roman) (grouped ['C'] ++ phoneme)
      (grouped ['C'] ++ roman)
  | afterConsonantFinal =>
    ruleOf (firstGroup ++ phoneme) (firstGroup ++ roman) (grouped ['C'] ++ phoneme ++ ['$'])
      (grouped ['C'] ++ roman ++ ['$'])
  | doubledVowel =>
    ruleOf firstGroup (firstGroup ++ firstGroup) (grouped ['V']) (grouped ['V'] ++ ['\\', '1'])
  | followedBy next =>
    ruleOf (phoneme ++ firstGroup) (roman ++ firstGroup) (phoneme ++ grouped next)
      (roman ++ grouped next)
  | notFollowedBy excluded =>
    let other := '[' :: '^' :: (excluded ++ [']'])
    ruleOf (phoneme ++ firstGroup) (roman ++ firstGroup) (phoneme ++ grouped other)
      (roman ++ grouped other)
  | afterFinal previous =>
    ruleOf (previous ++ phoneme) (previous ++ roman) (previous ++ phoneme ++ ['$'])
      (previous ++ roman ++ ['$'])

/-! ## A class at the end of a word -/

/-- The last `C` or `V` of a run, with what stands before and after it; something stands before. -/
def cutLastClass (run : List Char) : Option (List Char × Char × List Char) :=
  match run.reverse.span fun c ↦ c != 'C' && c != 'V' with
  | (after, c :: b :: before) => some ((b :: before).reverse, c, after.reverse)
  | _ => none

/-- The last `C` or `V` of a run after which something stands, and before which too. -/
def cutInnerClass (run : List Char) : Option (List Char × Char × List Char) :=
  match run.reverse with
  | last :: rest =>
    (cutLastClass rest.reverse).map fun (before, c, after) ↦ (before, c, after ++ [last])
  | [] => none

/-- The rule of a phoneme that ends in a class and is spelled around it, at the end of a word. -/
def classRule? (phoneme roman : List Char) : Option SoundRule := do
  let (stem, c, _) ← cutLastClass (phoneme.takeWhile isSolid)
  let (head, d, tail) ← cutInnerClass (roman.takeWhile isSolid)
  return ruleOf (stem ++ firstGroup) (head ++ firstGroup ++ tail) (stem ++ grouped [c])
    (head ++ grouped [d] ++ tail)

end Context

/-- The rule that spells `phoneme` as `roman` where `marker` says. -/
def SoundRule.inContext? (phoneme roman marker : List Char) : Option SoundRule :=
  let general := (Context.read? marker).map (Context.rule phoneme roman)
  if marker = "_#".toList then (Context.classRule? phoneme roman).or general else general

end Glossopoeia
