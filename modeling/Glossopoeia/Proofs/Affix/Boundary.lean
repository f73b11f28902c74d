import Glossopoeia.Affix.Compile
import Glossopoeia.Proofs.Pattern.Rewriting
import Glossopoeia.Proofs.Phonology.SoundClass

/-!
# What a condition asks

The condition of an affix becomes a class with an anchor, and whether that pattern occurs in a form
depends on the first or the last character of the form alone (`Orthography.exists_boundaryPattern`).
The classes of vowels and of consonants are complements whatever the inventory is, so of two
opposite conditions just one holds of a form that is not empty (`Boundary.holds_opposite`).
-/

set_option autoImplicit false

namespace Glossopoeia

open Pattern Phonology

namespace Boundary

/-- The letter of the class that is asked for. -/
def letter : Boundary → Char
  | initialVowel | finalVowel => 'V'
  | initialConsonant | finalConsonant => 'C'

/-- The question about the same place that has the other answer. -/
def opposite : Boundary → Boundary
  | initialVowel => initialConsonant
  | finalVowel => finalConsonant
  | initialConsonant => initialVowel
  | finalConsonant => finalVowel

/-- The answer. -/
def holds (s : SoundClass) (b : Boundary) (form : List Char) : Bool :=
  (if b.isInitial then form.head? else form.getLast?).any (s.admits b.letter)

variable {s : SoundClass}

/-- **Opposite questions have opposite answers**, unless there is nothing to ask about. -/
theorem holds_opposite (b : Boundary) {form : List Char} (hform : form ≠ []) :
    b.opposite.holds s form = !b.holds s form := by
  have hletters (c : Char) : s.admits 'C' c = !s.admits 'V' c := rfl
  obtain ⟨first, hfirst⟩ : ∃ c, form.head? = some c := ⟨_, List.head?_eq_some_head hform⟩
  obtain ⟨last, hlast⟩ : ∃ c, form.getLast? = some c := ⟨_, List.getLast?_eq_some_getLast hform⟩
  cases b <;> simp [holds, opposite, isInitial, letter, hfirst, hlast, hletters]

end Boundary

namespace Orthography

variable {s : SoundClass}

/-- The pieces of the pattern of a question. -/
def boundaryPieces (s : SoundClass) (b : Boundary) : List Pattern :=
  if b.isInitial then [place .textStart, one (s.letterSet b.letter)]
  else [one (s.letterSet b.letter), place .textEnd]

theorem denotes_boundaryPattern (hs : s.vowelChars ≠ []) (b : Boundary) :
    Denotes 0 (boundaryPattern s b).toList (boundaryPieces s b) 0 := by
  have hvowel : Denotes 0 s.vowel [one (s.letterSet 'V')] 0 := by
    have h := SoundClass.denotes_letter hs (c := 'V') (by decide) 0
    rwa [SoundClass.substitute, List.flatMap_singleton] at h
  have hconsonant : Denotes 0 s.consonant [one (s.letterSet 'C')] 0 := by
    have h := SoundClass.denotes_letter hs (c := 'C') (by decide) 0
    rwa [SoundClass.substitute, List.flatMap_singleton] at h
  cases b with
  | initialVowel =>
    rw [boundaryPattern, String.toList_ofList]
    exact (denotes_caret 0).append hvowel
  | finalVowel =>
    rw [boundaryPattern, String.toList_ofList]
    exact hvowel.append (denotes_dollar 0)
  | initialConsonant =>
    rw [boundaryPattern, String.toList_ofList]
    exact (denotes_caret 0).append hconsonant
  | finalConsonant =>
    rw [boundaryPattern, String.toList_ofList]
    exact hconsonant.append (denotes_dollar 0)

theorem occursIn_boundaryPieces (s : SoundClass) (b : Boundary) (form : List Char) :
    (sequence (boundaryPieces s b)).occursIn form = b.holds s form := by
  rw [Bool.eq_iff_iff, occursIn_iff, boundaryPieces, Boundary.holds, Option.any_eq_true]
  split
  · constructor
    · rintro ⟨a, b, stop, rfl, hrun⟩
      obtain ⟨hstart, hrun⟩ := run_place_eq_some.1 hrun
      obtain ⟨c, rest, rfl, hc, -⟩ := run_one_eq_some.1 hrun
      obtain rfl : a = [] := by simpa [Cursor.isAt] using hstart
      exact ⟨c, rfl, s.contains_letterSet _ c ▸ hc⟩
    · rintro ⟨c, hhead, hc⟩
      obtain ⟨rest, rfl⟩ := List.head?_eq_some_iff.1 hhead
      rw [← s.contains_letterSet] at hc
      exact ⟨[], c :: rest, _, rfl, run_place_eq_some.2
        ⟨rfl, run_one_eq_some.2 ⟨c, rest, rfl, hc, run_nil_eq_some.2 rfl⟩⟩⟩
  · constructor
    · rintro ⟨a, b, stop, rfl, hrun⟩
      obtain ⟨c, rest, rfl, hc, hrun⟩ := run_one_eq_some.1 hrun
      obtain ⟨hend, -⟩ := run_place_eq_some.1 hrun
      obtain rfl : rest = [] := by simpa [Cursor.isAt] using hend
      exact ⟨c, List.getLast?_concat, s.contains_letterSet _ c ▸ hc⟩
    · rintro ⟨c, hlast, hc⟩
      obtain ⟨a, rfl⟩ := List.getLast?_eq_some_iff.1 hlast
      rw [← s.contains_letterSet] at hc
      exact ⟨a, [c], _, rfl, run_one_eq_some.2
        ⟨c, [], rfl, hc, run_place_eq_some.2 ⟨rfl, run_nil_eq_some.2 rfl⟩⟩⟩

/-- **The pattern of a question occurs in the forms of which the answer is yes.** -/
theorem exists_boundaryPattern (hs : s.vowelChars ≠ []) (b : Boundary) :
    ∃ p, compilePattern (boundaryPattern s b) = .ok p ∧
      ∀ form, p.occursIn form = b.holds s form := by
  refine ⟨sequence (boundaryPieces s b), ?_, occursIn_boundaryPieces s b⟩
  rw [compilePattern, Pattern.read?, ofChars_of_denotes (denotes_boundaryPattern hs b)]

end Orthography

end Glossopoeia
