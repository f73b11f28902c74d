import Glossopoeia.SoundMap.Context
import Glossopoeia.SoundMap.Phonemes
import Glossopoeia.Phonology.SoundClass
import Glossopoeia.Error

/-!
# Compiling spelling rules

Spelling rules are lines such as `ʃ > sh`.  A line becomes one rule of the sound map for each
phoneme of its left side; blank lines and lines that open with a slash say nothing.  The letters `C`
and `V` are replaced by classes only when all lines are read, because the vowels of the spelling are
learnt from them: whatever a phonetic vowel is spelled as counts as a vowel of the spelling.
-/

set_option autoImplicit false

namespace Glossopoeia

open Text Phonology

/-- What spelling rules amount to. -/
structure CompiledSpelling where
  /-- The sound map. -/
  soundMap : SoundMap
  /-- The vowels of the phonetic script. -/
  phonetic : SoundClass
  /-- The vowels of the spelling. -/
  spelled : SoundClass
deriving DecidableEq

/-- What a line or several of them contribute. -/
structure SpellingLines where
  /-- The rules, still with their class letters. -/
  rules : List SoundRule
  /-- The spellings of phonetic vowels. -/
  vowels : List String
deriving DecidableEq

namespace SpellingLines

/-- Nothing. -/
def none : SpellingLines := ⟨[], []⟩

/-- First the one, then the other. -/
def append (a b : SpellingLines) : SpellingLines := ⟨a.rules ++ b.rules, a.vowels ++ b.vowels⟩

instance : Append SpellingLines := ⟨append⟩

end SpellingLines

/-! ## Rules for a whole class -/

/-- What follows an arrow, blanks around it left out; it is all on one line. -/
def afterArrow (cs : List Char) : Option (List Char) :=
  match trimLeft cs with
  | '>' :: rest =>
    let rest := trimLeft rest
    if rest.contains '\n' then none else some rest
  | _ => none

/-- What stands before the first arrow that has text before it, and what follows the arrow. -/
def cutArrow : List Char → Option (List Char × List Char)
  | [] => none
  | c :: rest =>
    if c = '\n' then none
    else
      match afterArrow rest with
      | some right => some ([c], right)
      | none => (cutArrow rest).map fun (left, right) ↦ (c :: left, right)

/-- The rule of a line that spells a whole class: `Vː > VV` doubles its letter, and `Cʲ > Cy` puts a
letter after it. -/
def groupRule? (line : List Char) : Option SoundRule :=
  match line with
  | [] => none
  | c :: rest =>
    if c = 'V' || c = 'C' then do
      let (mark, right) ← cutArrow rest
      let right ← stripStart [c] (trimRight right)
      match right with
      | [] => none
      | d :: _ =>
        let phoneme := Context.firstGroup ++ mark
        let spelling := Context.grouped [c] ++ mark
        if d = c then
          some (Context.ruleOf phoneme (Context.firstGroup ++ Context.firstGroup) spelling
            (Context.grouped [c] ++ ['\\', '1']))
        else
          some (Context.ruleOf phoneme (Context.firstGroup ++ [d]) spelling
            (Context.grouped [c] ++ [d]))
    else none

/-! ## Lines -/

/-- What one phoneme of a line contributes; `right` is the right side of the line. -/
def compilePhoneme (phonetic : SoundClass) (line right phoneme : List Char) :
    Except Error SpellingLines :=
  let learnt (roman : List Char) : List String :=
    if phonetic.contains (String.ofList phoneme) then [String.ofList roman] else []
  match cut '/' right with
  | none =>
    .ok ⟨[.literal (String.ofList phoneme) (String.ofList right)], learnt right⟩
  | some (roman, marker) =>
    let roman := trim roman
    let marker := trim marker
    match SoundRule.inContext? phoneme roman marker with
    | some rule => .ok ⟨[rule], learnt roman⟩
    | none => .error (.unmatchedContext (String.ofList marker) (String.ofList line))

/-- What several parts contribute in order; the first error counts. -/
def concatM {α : Type} (f : α → Except Error SpellingLines) : List α → Except Error SpellingLines
  | [] => .ok .none
  | a :: rest => do
    let first ← f a
    let others ← concatM f rest
    return first ++ others

/-- What a line contributes. -/
def compileLine (phonetic : SoundClass) (raw : List Char) : Except Error SpellingLines :=
  let line := trim raw
  match line with
  | [] => .ok .none
  | '/' :: _ => .ok .none
  | _ =>
    match groupRule? line with
    | some rule => .ok ⟨[rule], []⟩
    | none =>
      match split '>' line with
      | left :: right :: _ =>
        concatM (compilePhoneme phonetic line (trim right)) (Phonemes.expand (trim left))
      | _ => .error (.unmatchedSpellingRule (String.ofList line))

/-- The rule with its class letters replaced, by the phonetic classes where it looks at sounds and
by the classes of the spelling where it looks at letters. -/
def SoundRule.substitute (phonetic spelled : SoundClass) (r : SoundRule) : SoundRule :=
  { r with
    phoneme := onString phonetic.substitute r.phoneme
    spellingPattern := onString phonetic.substitute r.spellingPattern
    soundingPattern := onString spelled.substitute r.soundingPattern }

/-- The sound map of spelling rules, for a language with the given phonetic vowels. -/
def compileSoundMap (lines : List String) (phonetic : SoundClass) :
    Except Error CompiledSpelling := do
  let parts ← concatM (fun line ↦ compileLine phonetic line.toList) lines
  let spelled := SoundClass.ofSpelled parts.vowels
  return {
    soundMap := (SoundMap.stressMarks ++ parts.rules).map (SoundRule.substitute phonetic spelled)
    phonetic := phonetic
    spelled := spelled }

end Glossopoeia
