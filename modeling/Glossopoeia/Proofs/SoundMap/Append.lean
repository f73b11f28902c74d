import Glossopoeia.SoundMap.Compile
import Glossopoeia.Proofs.Dictionary
import Glossopoeia.Proofs.Outcome

/-!
# Spelling rules behind spelling rules

A line of spelling rules is read by itself: what rules it gives and what vowels it teaches depends
on the phonetic vowels and on no other line (`SpellingLines.ofLines_append`).  Only the last step
sees all lines at once.  It replaces the class letters, those of the way back by the classes of all
the vowels that were learnt.

So two lists of lines can be compiled one behind the other (`compileSoundMap_append`), but the map
is not simply the two maps one behind the other: a doubled vowel of the first list is looked for
among the vowels of both.  Three columns of a rule do not see this, and are those of the list that
the rule comes from; the fourth is what the rule was before the last step, with the classes of the
union.
-/

set_option autoImplicit false

namespace Glossopoeia

open Outcome Phonology

/-! ## Lines -/

namespace SpellingLines

/-- What lines contribute, their class letters not yet replaced. -/
def ofLines (phonetic : SoundClass) (lines : List String) : Except Error SpellingLines :=
  concatM (fun line ↦ compileLine phonetic line.toList) lines

@[simp] theorem rules_append (a b : SpellingLines) : (a ++ b).rules = a.rules ++ b.rules := rfl

@[simp] theorem vowels_append (a b : SpellingLines) : (a ++ b).vowels = a.vowels ++ b.vowels := rfl

theorem append_assoc (a b c : SpellingLines) : a ++ b ++ c = a ++ (b ++ c) := by
  show (⟨_, _⟩ : SpellingLines) = ⟨_, _⟩
  exact congr (congrArg SpellingLines.mk (List.append_assoc ..)) (List.append_assoc ..)

theorem concatM_append {α : Type} (f : α → Except Error SpellingLines) (first second : List α) :
    concatM f (first ++ second) = do
      let a ← concatM f first
      let b ← concatM f second
      return a ++ b := by
  induction first with
  | nil => exact (bind_pure (concatM f second)).symm
  | cons head rest ih =>
    simp only [List.cons_append, concatM, ih, bind_assoc, pure_bind, append_assoc]

/-- **No line sees another.** -/
theorem ofLines_append (phonetic : SoundClass) (first second : List String) :
    ofLines phonetic (first ++ second) = do
      let a ← ofLines phonetic first
      let b ← ofLines phonetic second
      return a ++ b :=
  concatM_append ..

end SpellingLines

/-! ## Class letters -/

namespace SoundRule

/-- The columns of a rule that a word is spelled by. -/
def spellingSide (r : SoundRule) : String × String × String :=
  (r.phoneme, r.romanization, r.spellingPattern)

/-- The classes of the spelling are for the way back. -/
theorem map_spellingSide_substitute (phonetic spelled spelled' : SoundClass)
    (rules : List SoundRule) :
    (rules.map (substitute phonetic spelled)).map spellingSide
      = (rules.map (substitute phonetic spelled')).map spellingSide := by
  rw [List.map_map, List.map_map]
  rfl

end SoundRule

/-- There is no class letter in the rules of the stress marks. -/
theorem SoundMap.map_substitute_stressMarks (phonetic spelled : SoundClass) :
    stressMarks.map (.substitute phonetic spelled) = stressMarks := by
  rfl

/-! ## Sound maps -/

namespace CompiledSpelling

/-- What lines amount to once all of them have been read. -/
def ofParts (phonetic : SoundClass) (parts : SpellingLines) : CompiledSpelling where
  soundMap :=
    SoundMap.stressMarks ++ parts.rules.map (.substitute phonetic (.ofSpelled parts.vowels))
  phonetic := phonetic
  spelled := .ofSpelled parts.vowels

/-- Is `all` what `a` and `b` amount to together, if `a` is made of the rules `first` and `b` of the
rules `second`, which still have their class letters? -/
structure IsAppend (phonetic : SoundClass) (first second : List SoundRule)
    (a b all : CompiledSpelling) : Prop where
  /-- The phonetic vowels are the given ones. -/
  phonetic_eq : all.phonetic = phonetic
  /-- The vowels of the spelling are for the spelling. -/
  script_eq : all.spelled.script = .spelled
  /-- They are the union of those learnt from both. -/
  contains_eq : ∀ v, all.spelled.contains v = (a.spelled.contains v || b.spelled.contains v)
  /-- Alone, the first rules have the classes learnt from them. -/
  first_eq : a.soundMap = SoundMap.stressMarks ++ first.map (.substitute phonetic a.spelled)
  /-- Alone, the second rules have the classes learnt from them. -/
  second_eq : b.soundMap = SoundMap.stressMarks ++ second.map (.substitute phonetic b.spelled)
  /-- Together, all rules have the classes of the union. -/
  soundMap_eq : all.soundMap = SoundMap.stressMarks ++ first.map (.substitute phonetic all.spelled)
    ++ second.map (.substitute phonetic all.spelled)
  /-- A word is spelled by the same columns, with the stress marks once. -/
  spellingSide_eq : all.soundMap.map SoundRule.spellingSide
    = a.soundMap.map SoundRule.spellingSide
      ++ (b.soundMap.drop SoundMap.stressMarks.length).map SoundRule.spellingSide

/-- The parts of both lists together amount to both. -/
theorem isAppend_ofParts (phonetic : SoundClass) (first second : SpellingLines) :
    IsAppend phonetic first.rules second.rules (ofParts phonetic first) (ofParts phonetic second)
      (ofParts phonetic (first ++ second)) where
  phonetic_eq := rfl
  script_eq := rfl
  contains_eq v := by
    have hvowels (vowels : List String) :
        (SoundClass.ofSpelled vowels).contains v = vowels.contains v :=
      StringSet.contains_ofList vowels v
    simp only [ofParts, hvowels, SpellingLines.vowels_append, List.contains_eq_mem,
      List.mem_append, Bool.decide_or]
  first_eq := rfl
  second_eq := rfl
  soundMap_eq := by
    simp only [ofParts, SpellingLines.rules_append, List.map_append, List.append_assoc]
  spellingSide_eq := by
    simp only [ofParts, SpellingLines.rules_append, List.drop_left, List.map_append,
      List.append_assoc]
    rw [SoundRule.map_spellingSide_substitute phonetic _ (.ofSpelled first.vowels) first.rules,
      SoundRule.map_spellingSide_substitute phonetic _ (.ofSpelled second.vowels) second.rules]

end CompiledSpelling

variable (phonetic : SoundClass)

theorem compileSoundMap_eq (lines : List String) :
    compileSoundMap lines phonetic
      = (SpellingLines.ofLines phonetic lines).map (CompiledSpelling.ofParts phonetic) := by
  rw [compileSoundMap]
  show (SpellingLines.ofLines phonetic lines >>= _) = _
  cases SpellingLines.ofLines phonetic lines with
  | error e => rfl
  | ok parts =>
    show Except.ok (CompiledSpelling.mk ((SoundMap.stressMarks ++ parts.rules).map
        (.substitute phonetic (.ofSpelled parts.vowels))) phonetic (.ofSpelled parts.vowels))
      = .ok (.ofParts phonetic parts)
    rw [List.map_append, SoundMap.map_substitute_stressMarks, CompiledSpelling.ofParts]

/-- **Spelling rules can be compiled one list behind the other.**  What is wrong with the first list
is reported before what is wrong with the second.  If nothing is, the rules of the first stand
behind the stress marks and before those of the second: as they are when the lists are compiled
apart where they spell, and with the classes of the vowels learnt from both where they sound
out. -/
theorem compileSoundMap_append (first second : List String) :
    (∀ e, compileSoundMap first phonetic = .error e →
      compileSoundMap (first ++ second) phonetic = .error e) ∧
    (∀ a e, compileSoundMap first phonetic = .ok a → compileSoundMap second phonetic = .error e →
      compileSoundMap (first ++ second) phonetic = .error e) ∧
    ∀ a b, compileSoundMap first phonetic = .ok a → compileSoundMap second phonetic = .ok b →
      ∃ parts parts' all, SpellingLines.ofLines phonetic first = .ok parts ∧
        SpellingLines.ofLines phonetic second = .ok parts' ∧
        compileSoundMap (first ++ second) phonetic = .ok all ∧
        CompiledSpelling.IsAppend phonetic parts.rules parts'.rules a b all := by
  simp only [compileSoundMap_eq, SpellingLines.ofLines_append]
  cases SpellingLines.ofLines phonetic first with
  | error e => exact ⟨fun _ h ↦ h, fun _ _ h ↦ (nomatch h), fun _ _ h ↦ (nomatch h)⟩
  | ok parts =>
    cases SpellingLines.ofLines phonetic second with
    | error e => exact ⟨fun _ h ↦ (nomatch h), fun _ _ _ h ↦ h, fun _ _ _ h ↦ (nomatch h)⟩
    | ok parts' =>
      refine ⟨fun _ h ↦ (nomatch h), fun _ _ _ h ↦ (nomatch h), fun a b ha hb ↦ ?_⟩
      cases ha
      cases hb
      exact ⟨parts, parts', _, rfl, rfl, rfl, CompiledSpelling.isAppend_ofParts ..⟩

/-- The rule of doubled vowels also finds the vowels that are learnt behind it. -/
theorem compileSoundMap_append_doubled :
    ∃ a b all, compileSoundMap ["a > â", "Vː > VV"] (.ofSymbols ["ae"]) = .ok a ∧
      compileSoundMap ["e > ê"] (.ofSymbols ["ae"]) = .ok b ∧
      compileSoundMap ["a > â", "Vː > VV", "e > ê"] (.ofSymbols ["ae"]) = .ok all ∧
      (∀ v, all.spelled.contains v = (a.spelled.contains v || b.spelled.contains v)) ∧
      a.soundMap.map SoundRule.soundingPattern = ["&&&&&&", "&&&&&&", "â", "([â])\\1"] ∧
      all.soundMap.map SoundRule.soundingPattern
        = ["&&&&&&", "&&&&&&", "â", "([âê])\\1", "ê"] := by
  obtain ⟨_, _, h⟩ := compileSoundMap_append (.ofSymbols ["ae"]) ["a > â", "Vː > VV"] ["e > ê"]
  obtain ⟨_, _, all, _, _, hall, happend⟩ := h _ _ rfl rfl
  cases hall
  exact ⟨_, _, _, rfl, rfl, rfl, happend.contains_eq, by decide +kernel, by decide +kernel⟩

end Glossopoeia
