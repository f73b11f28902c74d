import Glossopoeia.Proofs.Derivation.Append

/-!
# Declension on the way

If derived words are declined as well, each new root is declined as soon as it is entered, while the
lines that follow have yet to be read.  Nothing of this shows in the roots: a word that is an entry
can always be declined (`Decliner.decline_entry`), and the index takes in the roots only, so what
the words of a right side resolve to is the same with the forms and without them
(`Deriver.deriveLines_eq`).

So the only thing that declension can add to the errors is a rule that does not compile, and once
there is a decliner, the two runs fail on the same lines with the same errors.
-/

set_option autoImplicit false

namespace Glossopoeia

open LexiconEntry

/-- Once there is a decliner, its forms are put between the roots and change nothing else. -/
theorem deriveWords_true_eq_map {rules : List String} {affixes : DerivationalAffixMap}
    {lexicon : List LexiconEntry} {affixMap : AffixMap} {speller : Speller} {decliner : Decliner}
    (hdecliner : Decliner.ofAffixMap affixMap speller = .ok decliner) :
    deriveWords rules affixes lexicon affixMap speller true
      = (deriveWords rules affixes lexicon affixMap speller false).map (withFamilies decliner) := by
  rw [deriveWords, deriveWords]
  cases Deriver.ofAffixes affixes speller with
  | error e => rfl
  | ok d =>
    show (Decliner.ofAffixMap affixMap speller >>= _)
      = (d.derive rules lexicon).map (withFamilies decliner)
    rw [hdecliner]
    exact d.deriveEntries_some_eq decliner rules lexicon

/-- **To decline on the way is to decline afterwards.**  A word that is an entry can always be
declined.  So with the forms a derivation succeeds when it does without them and fails with the same
error, and what it makes are the same roots, each with its forms right behind it. -/
theorem deriveWords_decline_eq {affixMap : AffixMap} {speller : Speller} {decliner : Decliner}
    (hdecliner : Decliner.ofAffixMap affixMap speller = .ok decliner) (rules : List String)
    (affixes : DerivationalAffixMap) (lexicon : List LexiconEntry) :
    (∀ root derived, decliner.decline (.entry root) derived = .ok (decliner.declineEntry root)) ∧
    (∀ roots, deriveWords rules affixes lexicon affixMap speller false = .ok roots →
      ∀ root ∈ roots, root.isRoot = true) ∧
    deriveWords rules affixes lexicon affixMap speller true
      = (deriveWords rules affixes lexicon affixMap speller false).map
          (·.flatMap fun root ↦ root :: decliner.declineEntry root) := by
  refine ⟨decliner.decline_entry, fun roots hroots root hroot ↦ ?_,
    deriveWords_true_eq_map hdecliner⟩
  obtain ⟨d, _, hroots⟩ := deriveWords_false_eq_ok.1 hroots
  exact (Deriver.mem_deriveFrom hroots root hroot).1

/-- The home that the first line makes is declined before the second line looks for it: it finds the
home and not its plural. -/
theorem deriveWords_decline_eq_village :
    ∃ decliner, Decliner.ofAffixMap Deriver.plurals ⟨[]⟩ = .ok decliner ∧
      (deriveWords ["home : n = house", "village : n = home home"] .empty
        [.root "ka" "ka" "house" "n"] Deriver.plurals ⟨[]⟩ true).map (·.map phonetic)
        = .ok ["ka", "kai", "kaka", "kakai"] := by
  have hdecliner : Decliner.ofAffixMap Deriver.plurals ⟨[]⟩ = .ok _ := rfl
  obtain ⟨-, -, heq⟩ := deriveWords_decline_eq hdecliner
    ["home : n = house", "village : n = home home"] .empty [.root "ka" "ka" "house" "n"]
  refine ⟨_, hdecliner, ?_⟩
  rw [heq]
  decide +kernel

end Glossopoeia
