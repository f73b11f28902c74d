import Glossopoeia.SoundMap.Sounder
import Glossopoeia.Proofs.Outcome
import Glossopoeia.Proofs.Pattern.Literal
import Glossopoeia.Proofs.Text.Blank

/-!
# Spelling and sounding out

A sound map of literal rules replaces phonemes by letters when a word is spelled and letters by
phonemes when it is sounded out, in the reverse order.  Stress is not spelled, so at best the word
comes back without its stress marks.  It does (`SoundMap.soundOut_spell`) if no letter of a rule is
in the word or among the letters of an earlier rule: then each rule finds its letters where it has
written them itself and nowhere else, once the later rules have been undone.
-/

set_option autoImplicit false

namespace Glossopoeia

open Outcome Text

/-! ## Literal rules -/

/-- A phoneme and its letters are reversible if both are texts that stand for themselves and the
letters hold neither a blank nor the sign of the patterns without a way back. -/
structure IsReversible (phoneme letters : String) : Prop where
  /-- There is something to replace. -/
  phoneme_ne : phoneme ≠ ""
  /-- There is something to put in its place. -/
  letters_ne : letters ≠ ""
  /-- The phoneme is the pattern of itself. -/
  phoneme_verbatim : Pattern.IsVerbatim phoneme.toList
  /-- The letters are the pattern of themselves. -/
  letters_verbatim : Pattern.IsVerbatim letters.toList
  /-- No blank is among the letters. -/
  letters_solid : Solid letters.toList
  /-- The letters are not those of `SoundRule.unmatchable`. -/
  ampersand_notMem : '&' ∉ letters.toList

/-- The rules of the stress marks, then one for each phoneme and its letters. -/
def SoundMap.ofLiterals (spellings : List (String × String)) : SoundMap :=
  stressMarks ++ spellings.map fun (phoneme, letters) ↦ .literal phoneme letters

namespace Substitution

/-- The replacement of a mark by nothing. -/
def omission (mark : Char) : Substitution := ⟨.literal [mark], .ofBraced (Template.braced [])⟩

/-- The replacement of a phoneme by its letters. -/
def ofPhoneme (spelling : String × String) : Substitution :=
  ⟨.literal spelling.1.toList, .ofBraced (Template.braced spelling.2.toList)⟩

/-- The replacement of letters by their phoneme. -/
def ofLetters (spelling : String × String) : Substitution :=
  ⟨.literal spelling.2.toList, .direct spelling.1.toList⟩

theorem apply_omission (mark : Char) (cs : List Char) :
    (omission mark).apply cs = cs.filter (· ≠ mark) :=
  (Pattern.replaced_replaceAll (List.cons_ne_nil mark [])
    (Template.writes_braced List.not_mem_nil) cs).eq_filter

end Substitution

namespace IsReversible

variable {spelling : String × String}

theorem dollar_notMem_phoneme (h : IsReversible spelling.1 spelling.2) :
    '$' ∉ spelling.1.toList := fun hmem ↦ h.phoneme_verbatim _ hmem (by decide)

theorem dollar_notMem_letters (h : IsReversible spelling.1 spelling.2) :
    '$' ∉ spelling.2.toList := fun hmem ↦ h.letters_verbatim _ hmem (by decide)

theorem toList_phoneme_ne (h : IsReversible spelling.1 spelling.2) : spelling.1.toList ≠ [] :=
  fun hnil ↦ h.phoneme_ne (String.toList_eq_nil_iff.1 hnil)

theorem toList_letters_ne (h : IsReversible spelling.1 spelling.2) : spelling.2.toList ≠ [] :=
  fun hnil ↦ h.letters_ne (String.toList_eq_nil_iff.1 hnil)

theorem replaced_ofPhoneme (h : IsReversible spelling.1 spelling.2) (cs : List Char) :
    Replaced spelling.1.toList spelling.2.toList cs ((Substitution.ofPhoneme spelling).apply cs) :=
  Pattern.replaced_replaceAll h.toList_phoneme_ne (Template.writes_braced h.dollar_notMem_letters)
    cs

theorem replaced_ofLetters (h : IsReversible spelling.1 spelling.2) (cs : List Char) :
    Replaced spelling.2.toList spelling.1.toList cs ((Substitution.ofLetters spelling).apply cs) :=
  Pattern.replaced_replaceAll h.toList_letters_ne (Template.writes_direct h.dollar_notMem_phoneme)
    cs

/-- One rule is undone if none of its letters has been in the text. -/
theorem apply_ofLetters_ofPhoneme (h : IsReversible spelling.1 spelling.2) {cs : List Char}
    (hfresh : ∀ c ∈ spelling.2.toList, c ∉ cs) :
    (Substitution.ofLetters spelling).apply ((Substitution.ofPhoneme spelling).apply cs) = cs :=
  (h.replaced_ofLetters _).unique h.toList_letters_ne
    ((h.replaced_ofPhoneme cs).symm h.toList_letters_ne hfresh)

theorem isSounding_literal (h : IsReversible spelling.1 spelling.2) :
    (SoundRule.literal spelling.1 spelling.2).isSounding = true := by
  have hunmatchable : spelling.2 ≠ SoundRule.unmatchable := fun heq ↦
    h.ampersand_notMem (heq ▸ by decide)
  simp [SoundRule.isSounding, SoundRule.literal, h.letters_ne, hunmatchable]

end IsReversible

/-! ## Compiling -/

theorem compileSubstitution_eq_ok {source : String} (h : Pattern.IsVerbatim source.toList)
    (replacement : String) :
    compileSubstitution source replacement
      = .ok ⟨.literal source.toList, .ofBraced (Template.braced replacement.toList)⟩ := by
  rw [compileSubstitution, compilePattern, Pattern.read?_verbatim .regular h]
  rfl

variable {spellings : List (String × String)}

theorem Speller.ofSoundMap_ofLiterals
    (h : ∀ spelling ∈ spellings, IsReversible spelling.1 spelling.2) :
    Speller.ofSoundMap (.ofLiterals spellings)
      = .ok ⟨.omission SoundRule.primaryStress :: .omission SoundRule.secondaryStress ::
          spellings.map .ofPhoneme⟩ := by
  have hrules : ∀ r ∈ SoundMap.ofLiterals spellings,
      r.spellingPattern ≠ "" ∧ Pattern.IsVerbatim r.spellingPattern.toList := by
    rw [SoundMap.ofLiterals, List.forall_mem_append, List.forall_mem_map]
    exact ⟨by decide, fun spelling hmem ↦
      ⟨(h spelling hmem).phoneme_ne, (h spelling hmem).phoneme_verbatim⟩⟩
  have hkept : List.filter (fun r ↦ r.spellingPattern != "") (SoundMap.ofLiterals spellings)
      = SoundMap.ofLiterals spellings :=
    List.filter_eq_self.2 fun r hr ↦ bne_iff_ne.2 (hrules r hr).1
  rw [Speller.ofSoundMap, hkept, mapM_eq_ok_map fun r hr ↦
    compileSubstitution_eq_ok (hrules r hr).2 r.romanization, SoundMap.ofLiterals, List.map_append,
    List.map_map]
  rfl

theorem Sounder.ofSoundMap_ofLiterals
    (h : ∀ spelling ∈ spellings, IsReversible spelling.1 spelling.2) :
    Sounder.ofSoundMap (.ofLiterals spellings) = .ok ⟨spellings.map .ofLetters⟩ := by
  have hmarks : SoundMap.stressMarks.filter SoundRule.isSounding = [] := by decide
  have hkept : List.filter SoundRule.isSounding (SoundMap.ofLiterals spellings)
      = spellings.map fun (phoneme, letters) ↦ .literal phoneme letters := by
    rw [SoundMap.ofLiterals, List.filter_append, hmarks, List.nil_append, List.filter_eq_self,
      List.forall_mem_map]
    exact fun spelling hmem ↦ (h spelling hmem).isSounding_literal
  have hcompile : ∀ r ∈ spellings.map (fun (phoneme, letters) ↦ SoundRule.literal phoneme letters),
      compileRule r = .ok ⟨.literal r.soundingPattern.toList, .direct r.phoneme.toList⟩ := by
    rw [List.forall_mem_map]
    intro spelling hmem
    have hread : Pattern.read? .extended (SoundRule.literal spelling.1 spelling.2).soundingPattern
        = some (.literal spelling.2.toList) :=
      Pattern.read?_verbatim .extended (h spelling hmem).letters_verbatim
    rw [compileRule, hread]
    rfl
  rw [Sounder.ofSoundMap, hkept, mapM_eq_ok_map hcompile, List.map_map]
  rfl

/-! ## There and back -/

/-- The text without stress marks. -/
def withoutStress (cs : List Char) : List Char :=
  cs.filter fun c ↦ c ≠ SoundRule.primaryStress ∧ c ≠ SoundRule.secondaryStress

theorem withoutStress_eq (cs : List Char) :
    withoutStress cs
      = (cs.filter (· ≠ SoundRule.primaryStress)).filter (· ≠ SoundRule.secondaryStress) := by
  rw [withoutStress, List.filter_filter]
  exact List.filter_congr fun c _ ↦ by simp [Bool.and_comm]

/-- The letters that the rules write are new: none is in the text, or among those that an earlier
rule has written. -/
structure AreFresh (spellings : List (String × String)) (cs : List Char) : Prop where
  /-- None is in the text. -/
  notMem : ∀ spelling ∈ spellings, ∀ c ∈ spelling.2.toList, c ∉ cs
  /-- None is written by an earlier rule. -/
  pairwise : spellings.Pairwise fun earlier later ↦ ∀ c ∈ later.2.toList, c ∉ earlier.2.toList

variable {cs : List Char}

/-- The letters of the later rules stay new when the first rule has written its own. -/
theorem AreFresh.tail {spelling : String × String} (hspelling : IsReversible spelling.1 spelling.2)
    (h : AreFresh (spelling :: spellings) cs) :
    AreFresh spellings ((Substitution.ofPhoneme spelling).apply cs) where
  notMem later hlater c hc hmem := by
    rcases (hspelling.replaced_ofPhoneme cs).mem hmem with hmem | hmem
    · exact List.rel_of_pairwise_cons h.pairwise hlater c hc hmem
    · exact h.notMem later (List.mem_cons_of_mem _ hlater) c hc hmem
  pairwise := h.pairwise.of_cons

theorem AreFresh.subset {part : List Char} (hpart : part ⊆ cs) (h : AreFresh spellings cs) :
    AreFresh spellings part :=
  ⟨fun spelling hmem c hc hcs ↦ h.notMem spelling hmem c hc (hpart hcs), h.pairwise⟩

/-- **What the rules have replaced they replace back in the reverse order.** -/
theorem foldr_ofLetters_foldl_ofPhoneme
    (h : ∀ spelling ∈ spellings, IsReversible spelling.1 spelling.2)
    (hfresh : AreFresh spellings cs) :
    (spellings.map Substitution.ofLetters).foldr (fun step cs ↦ step.apply cs)
      ((spellings.map Substitution.ofPhoneme).foldl (fun cs step ↦ step.apply cs) cs) = cs := by
  induction spellings generalizing cs with
  | nil => rfl
  | cons spelling rest ih =>
    obtain ⟨hspelling, hrest⟩ := List.forall_mem_cons.1 h
    rw [List.map_cons, List.map_cons, List.foldl_cons, List.foldr_cons,
      ih hrest (hfresh.tail hspelling)]
    exact hspelling.apply_ofLetters_ofPhoneme (hfresh.notMem spelling (List.mem_cons_self ..))

/-- Spelling puts no blank into a text. -/
theorem solid_foldl_ofPhoneme (h : ∀ spelling ∈ spellings, IsReversible spelling.1 spelling.2)
    (hcs : Solid cs) :
    Solid ((spellings.map Substitution.ofPhoneme).foldl (fun cs step ↦ step.apply cs) cs) := by
  induction spellings generalizing cs with
  | nil => exact hcs
  | cons spelling rest ih =>
    obtain ⟨hspelling, hrest⟩ := List.forall_mem_cons.1 h
    refine ih hrest fun c hc ↦ ?_
    exact ((hspelling.replaced_ofPhoneme cs).mem hc).elim (hspelling.letters_solid c) (hcs c)

/-- **A spelled word sounds out to itself without its stress marks.** -/
theorem SoundMap.soundOut_spell
    (h : ∀ spelling ∈ spellings, IsReversible spelling.1 spelling.2) {word : String}
    (hword : Solid word.toList) (hfresh : AreFresh spellings word.toList) :
    ∃ speller sounder, Speller.ofSoundMap (.ofLiterals spellings) = .ok speller ∧
      Sounder.ofSoundMap (.ofLiterals spellings) = .ok sounder ∧
      sounder.soundOut (speller.spell word) = onString withoutStress word := by
  refine ⟨_, _, Speller.ofSoundMap_ofLiterals h, Sounder.ofSoundMap_ofLiterals h, ?_⟩
  have hsubset : withoutStress word.toList ⊆ word.toList := List.filter_subset_self _
  rw [Sounder.soundOut, Speller.spell, onString, onString, onString, String.toList_ofList]
  refine congrArg String.ofList ?_
  rw [Speller.spellChars, Speller.replaceAll, List.foldl_cons, List.foldl_cons,
    Substitution.apply_omission, Substitution.apply_omission, ← withoutStress_eq,
    (solid_foldl_ofPhoneme h (hword.subset hsubset)).trim_eq]
  exact foldr_ofLetters_foldl_ofPhoneme h (hfresh.subset hsubset)

/-- The second rule spells a letter that the first one has written: `ˈʃu` is spelled `sxu`. -/
theorem SoundMap.soundOut_spell_stressed :
    (∀ spelling ∈ [("ʃ", "sh"), ("h", "x")], IsReversible spelling.1 spelling.2) ∧
      Solid "ˈʃu".toList ∧ AreFresh [("ʃ", "sh"), ("h", "x")] "ˈʃu".toList ∧
      ∃ speller sounder, Speller.ofSoundMap (.ofLiterals [("ʃ", "sh"), ("h", "x")]) = .ok speller ∧
        Sounder.ofSoundMap (.ofLiterals [("ʃ", "sh"), ("h", "x")]) = .ok sounder ∧
        sounder.soundOut (speller.spell "ˈʃu") = "ʃu" := by
  have hrules : ∀ spelling ∈ [("ʃ", "sh"), ("h", "x")], IsReversible spelling.1 spelling.2 := by
    rw [List.forall_mem_cons, List.forall_mem_singleton]
    exact ⟨⟨by decide, by decide, by decide, by decide, by decide, by decide⟩,
      ⟨by decide, by decide, by decide, by decide, by decide, by decide⟩⟩
  have hword : Solid "ˈʃu".toList := by decide
  have hfresh : AreFresh [("ʃ", "sh"), ("h", "x")] "ˈʃu".toList := ⟨by simp, by simp⟩
  exact ⟨hrules, hword, hfresh, SoundMap.soundOut_spell hrules hword hfresh⟩

end Glossopoeia
