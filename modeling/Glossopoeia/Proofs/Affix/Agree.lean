import Glossopoeia.Proofs.Affix.Boundary
import Glossopoeia.Proofs.Affix.Lengthening

/-!
# Rules that do the same

Two affix rules agree if they make the same form of every form in which there is something to
decline, and leave something in it (`AffixRule.Agree`).  Such a form has a character besides marks
of primary stress, since one such mark is taken off before an affix is put to the form.

Every rule that a cell holds agrees with itself, which is to say that it can be compiled and leaves
something in the form (`agree_self_of_compileCell`).  For the lengthening of a vowel this rests on
the two classes once more: what it writes holds a vowel and a consonant, and not both of them can be
a stress mark.  Two conditional rules agree if they ask opposite questions and their branches are
exchanged (`agree_opposite`).
-/

set_option autoImplicit false

namespace Glossopoeia

open Outcome Text Pattern Phonology

/-! ## Forms -/

/-- Is there something in the form besides marks of primary stress? -/
def IsSounded (form : List Char) : Prop := ∃ c ∈ form, c ≠ SoundRule.primaryStress

namespace IsSounded

variable {form stem : List Char}

theorem ne_nil (h : IsSounded form) : form ≠ [] := by
  obtain ⟨c, hc, -⟩ := h
  exact List.ne_nil_of_mem hc

theorem subset (h : IsSounded stem) (hsubset : stem ⊆ form) : IsSounded form := by
  obtain ⟨c, hc, hne⟩ := h
  exact ⟨c, hsubset hc, hne⟩

theorem unstressed (h : IsSounded form) : IsSounded (Variant.unstressed form) := by
  obtain ⟨c, hc, hne⟩ := h
  cases form with
  | nil => exact absurd hc List.not_mem_nil
  | cons d rest =>
    rw [Variant.unstressed]
    split
    · next hd =>
      subst hd
      exact ⟨c, (List.mem_cons.1 hc).resolve_left hne, hne⟩
    · exact ⟨c, hc, hne⟩

theorem attach (h : IsSounded stem) (position : WordEnd) (add : List Char) :
    IsSounded (attach position add stem) := by
  cases position with
  | front => exact h.subset (List.subset_append_right ..)
  | back => exact h.subset (List.subset_append_left ..)

/-- A vowel is doubled together with a consonant behind it, and not both are stress marks. -/
theorem rewritten {s : SoundClass} {before text result : List Char}
    (h : Rewritten (Orthography.lengtheningHit s) before text result) (htext : IsSounded text) :
    IsSounded result := by
  induction h with
  | done => exact htext
  | @kept before rest result c _ _ ih =>
    obtain ⟨d, hd, hne⟩ := htext
    rcases List.mem_cons.1 hd with rfl | hd
    · exact ⟨d, List.mem_cons_self .., hne⟩
    · exact (ih ⟨d, hd, hne⟩).subset (List.subset_cons_self ..)
  | found hhit _ _ =>
    obtain ⟨-, v, rest, -, hv, ⟨hconsonants, -⟩, rfl⟩ := hhit
    obtain ⟨c, hc⟩ := List.exists_mem_of_ne_nil _ hconsonants
    by_cases hstress : v = SoundRule.primaryStress
    · refine ⟨c, by simp [hc], fun heq ↦ ?_⟩
      have hconsonant : s.isConsonant c = true := List.mem_takeWhile_imp hc
      rw [heq, ← hstress, Orthography.isConsonant_eq_false hv] at hconsonant
      cases hconsonant
    · exact ⟨v, by simp, hstress⟩

end IsSounded

/-! ## Rules -/

/-- The two make the same form of every form in which there is something, and leave something in
it. -/
structure Transform.Agree (t t' : Transform) : Prop where
  /-- They make the same. -/
  same : ∀ position form, IsSounded form →
    t.apply position form (Variant.unstressed form)
      = t'.apply position form (Variant.unstressed form)
  /-- There is something in it. -/
  isSounded : ∀ position form, IsSounded form →
    IsSounded (t.apply position form (Variant.unstressed form))

/-- The two can be compiled and do the same. -/
structure AffixRule.Agree (rule rule' : AffixRule) : Prop where
  /-- Both or neither of them take part in declension. -/
  isUsable : ∀ kind name, CompiledSlot.isUsable kind ⟨name, rule⟩
    = CompiledSlot.isUsable kind ⟨name, rule'⟩
  /-- What they are compiled to. -/
  compiled : ∃ t t', Transform.ofRule rule = .ok t ∧ Transform.ofRule rule' = .ok t' ∧ t.Agree t'

namespace Orthography

variable {o : Orthography} {s : SoundClass}

/-- Two conditional rules agree if they always add the same. -/
theorem agree_conditional (hs : s.vowelChars ≠ []) {boundary boundary' : Boundary}
    {q q' a a' b b' u u' v v' : String}
    (hadd : ∀ form, IsSounded form →
      (if boundary.holds s form then a.toList else b.toList)
        = if boundary'.holds s form then a'.toList else b'.toList) :
    AffixRule.Agree (.conditional (boundaryPattern s boundary) q a u b v)
      (.conditional (boundaryPattern s boundary') q' a' u' b' v') where
  isUsable := fun kind _ ↦ by cases kind <;> rfl
  compiled := by
    obtain ⟨p, hp, hoccurs⟩ := exists_boundaryPattern hs boundary
    obtain ⟨p', hp', hoccurs'⟩ := exists_boundaryPattern hs boundary'
    refine ⟨.choose p a.toList b.toList, .choose p' a'.toList b'.toList, ?_, ?_, ?_, ?_⟩
    · rw [Transform.ofRule, hp]
      rfl
    · rw [Transform.ofRule, hp']
      rfl
    · intro position form hform
      rw [Transform.apply, Transform.apply, hoccurs, hoccurs', hadd form hform]
    · exact fun position form hform ↦ hform.unstressed.attach position _

/-- **A condition and its opposite**, with the branches exchanged. -/
theorem agree_opposite (hs : o.phonetic.vowelChars ≠ []) (kind kind' : AffixKind)
    (boundary : Boundary) (a b : List Char) :
    (o.ruleOf (.conditional kind boundary a b)).2.Agree
      (o.ruleOf (.conditional kind' boundary.opposite b a)).2 := by
  refine agree_conditional hs fun form hform ↦ ?_
  rw [boundary.holds_opposite hform.ne_nil]
  cases boundary.holds o.phonetic form <;> rfl

theorem agree_lengthening (hs : o.phonetic.vowelChars ≠ []) :
    o.lengthening.Agree o.lengthening where
  isUsable := fun _ _ ↦ rfl
  compiled := by
    refine ⟨_, _, ofRule_lengthening hs, ofRule_lengthening hs, fun _ _ _ ↦ rfl, ?_⟩
    intro position form hform
    exact hform.unstressed.rewritten ((rewrites_lastVowelPieces _).rewritten_replaceAll _)

/-- **Every rule that a cell holds can be compiled, and leaves something in the forms.** -/
theorem agree_self_of_compileCell (hs : o.phonetic.vowelChars ≠ []) {content : List Char}
    {kind : Option AffixKind} {rule : AffixRule}
    (h : o.compileCell content = .ok (kind, rule)) : rule.Agree rule := by
  rcases of_compileCell h with ⟨form, -, -, rfl⟩ | ⟨-, rfl⟩ | ⟨-, rfl⟩
  · cases form with
    | plain kind add =>
      exact ⟨fun _ _ ↦ rfl, _, _, rfl, rfl, fun _ _ _ ↦ rfl,
        fun position form hform ↦ hform.unstressed.attach position _⟩
    | conditional kind boundary a b => exact agree_conditional hs fun _ _ ↦ rfl
  · exact agree_lengthening hs
  · exact ⟨fun _ _ ↦ rfl, _, _, rfl, rfl, fun _ _ _ ↦ rfl, fun _ _ hform ↦ hform⟩

end Orthography

end Glossopoeia
