import Glossopoeia.Language.SaveFile
import Glossopoeia.Proofs.SoundMap.LearntClasses
import Glossopoeia.Proofs.Text.Words

/-!
# The classes of a save file

A save file lists its vowels in two fields.  The lists are put together, cut into symbols and sorted
before the class of the vowels is written, so a combining mark can end up in another symbol and
anywhere in the class.  But a text is what its symbols are made of: wherever the cuts fall, the
class has the characters of the listed vowels (`chars_ofSymbols`), and these settle what it does.

`SaveFile.classes_of_listed` is the result.  Both classes are accepted in either dialect, and each
is read as its characters one by one: none of them, wherever it stands, makes a range of its
neighbours, opens or closes a class, takes one back or combines two.
-/

set_option autoImplicit false

namespace Glossopoeia

open Phonology Text

namespace Phonology.SoundClass

variable {lists : List String}

/-- If the lists have a character, the class has a member. -/
theorem isEmpty_entries_ofSymbols (hlists : ∃ list ∈ lists, list.toList ≠ []) :
    (ofSymbols lists).members.entries.isEmpty = false := by
  obtain ⟨list, hlist, hne⟩ := hlists
  obtain ⟨c, hc⟩ := List.exists_mem_of_ne_nil _ hne
  have hmember := mem_flatMap_members.2 ⟨list, hlist, hc⟩
  by_contra hempty
  rw [Bool.not_eq_false, List.isEmpty_iff] at hempty
  rw [StringSet.toList, Dictionary.keys, hempty] at hmember
  exact List.not_mem_nil hmember

/-- **Both classes list the same**: the characters of the lists. -/
theorem chars_ofSymbols (hlists : ∃ list ∈ lists, list.toList ≠ []) :
    (ofSymbols lists).excludedChars = (ofSymbols lists).vowelChars ∧
      ∀ c, c ∈ (ofSymbols lists).vowelChars ↔ ∃ list ∈ lists, c ∈ list.toList := by
  rw [excludedChars, vowelChars, isEmpty_entries_ofSymbols hlists, if_neg Bool.false_ne_true,
    if_neg Bool.false_ne_true]
  exact ⟨rfl, fun c ↦ mem_flatMap_members⟩

end Phonology.SoundClass

namespace Pattern

/-- A class is found where one of its characters is. -/
theorem occursIn_one {set : CharSet} {text : List Char} :
    (one set).occursIn text = true ↔ ∃ c ∈ text, set.contains c = true := by
  rw [occursIn_iff]
  constructor
  · rintro ⟨a, b, stop, rfl, hrun⟩
    have hrun : (sequence [one set]).run ⟨a.reverse, b, []⟩ some = some stop := hrun
    obtain ⟨c, rest, rfl, hc, -⟩ := run_one_eq_some.1 hrun
    exact ⟨c, List.mem_append_right _ (List.mem_cons_self ..), hc⟩
  · rintro ⟨c, hmem, hc⟩
    obtain ⟨a, rest, rfl⟩ := List.append_of_mem hmem
    exact ⟨a, c :: rest, ⟨c :: a.reverse, rest, []⟩, rfl, if_pos hc⟩

end Pattern

namespace SaveFile

open Pattern

/-- The listed vowels. -/
def listedVowels (save : SaveFile) : List String := wordsOf save.vowels ++ wordsOf save.basicVowels

/-- Does the character occur in a listed vowel? -/
def IsVowelChar (save : SaveFile) (c : Char) : Prop := ∃ vowel ∈ save.listedVowels, c ∈ vowel.toList

instance (save : SaveFile) (c : Char) : Decidable (save.IsVowelChar c) :=
  inferInstanceAs (Decidable (∃ vowel ∈ save.listedVowels, c ∈ vowel.toList))

variable {save : SaveFile}

theorem ne_nil_of_mem_listedVowels {vowel : String} (h : vowel ∈ save.listedVowels) :
    vowel.toList ≠ [] := by
  have hwords {s : String} (hvowel : vowel ∈ wordsOf s) : vowel.toList ≠ [] := by
    obtain ⟨word, hword, rfl⟩ := List.mem_map.1 hvowel
    rw [String.toList_ofList]
    simpa using (List.mem_filter.1 hword).2
  exact (List.mem_append.1 h).elim hwords hwords

theorem exists_toList_ne_nil (hlisted : save.listedVowels ≠ []) :
    ∃ vowel ∈ save.listedVowels, vowel.toList ≠ [] := by
  obtain ⟨vowel, hvowel⟩ := List.exists_mem_of_ne_nil _ hlisted
  exact ⟨vowel, hvowel, ne_nil_of_mem_listedVowels hvowel⟩

/-- **The classes of listed vowels.**  Either dialect reads the class of the vowels as a list of
characters, and that of the consonants as all others; the characters of the list are those of the
listed vowels.  So the class of the vowels matches the text of one such character and no other text,
that of the consonants the text of any other character, and each of them is found in the texts that
contain what it matches. -/
theorem classes_of_listed (hlisted : save.listedVowels ≠ []) :
    (∃ cs : List Char, (∀ c, c ∈ cs ↔ save.IsVowelChar c) ∧ ∀ dialect,
      ofChars dialect save.soundClass.vowel = some (one (.ofChars cs)) ∧
        ofChars dialect save.soundClass.consonant = some (one (.inverse (.ofChars cs)))) ∧
    IsClassOf save.soundClass.vowel save.IsVowelChar ∧
    IsClassOf save.soundClass.consonant (¬save.IsVowelChar ·) ∧
    ∀ dialect p q, ofChars dialect save.soundClass.vowel = some p →
      ofChars dialect save.soundClass.consonant = some q → ∀ text : List Char,
        (p.occursIn text = true ↔ ∃ c ∈ text, save.IsVowelChar c) ∧
        (q.occursIn text = true ↔ ∃ c ∈ text, ¬save.IsVowelChar c) := by
  have hne : save.soundClass.vowelChars ≠ [] := SoundClass.vowelChars_ofSymbols_ne_nil _
  obtain ⟨hexcluded, hchars⟩ := SoundClass.chars_ofSymbols (exists_toList_ne_nil hlisted)
  change save.soundClass.excludedChars = save.soundClass.vowelChars at hexcluded
  change ∀ c, c ∈ save.soundClass.vowelChars ↔ save.IsVowelChar c at hchars
  have hread (dialect : Dialect) :
      ofChars dialect save.soundClass.vowel = some (one (.ofChars save.soundClass.vowelChars)) ∧
        ofChars dialect save.soundClass.consonant
          = some (one (.inverse (.ofChars save.soundClass.vowelChars))) := by
    rw [SoundClass.vowel_eq, SoundClass.consonant_eq, hexcluded]
    exact ⟨ofChars_class (readClass_escaped hne []).1, ofChars_class (readClass_escaped hne []).2⟩
  obtain ⟨hvowel, hconsonant⟩ := isClassOf_spelling hne
  simp only [hchars] at hvowel hconsonant
  refine ⟨⟨_, hchars, hread⟩, hvowel, hconsonant, fun dialect p q hp hq text ↦ ?_⟩
  obtain rfl := Option.some.inj ((hread dialect).1.symm.trans hp)
  obtain rfl := Option.some.inj ((hread dialect).2.symm.trans hq)
  simp [occursIn_one, CharSet.contains, hchars]

/-- A save file whose vowels are made of the characters that mean something in a class. -/
def withSigns : SaveFile :=
  { SaveFile.blank with vowels := "^a-c] [&&~", basicVowels := "\\w ~-" }

/-- In its classes `a-c` is no range and `\w` names no set. -/
theorem classes_of_listed_withSigns : withSigns.listedVowels ≠ [] ∧
    ¬withSigns.IsVowelChar 'b' ∧ withSigns.IsVowelChar '\\' ∧
    IsClassOf withSigns.soundClass.vowel withSigns.IsVowelChar ∧
    IsClassOf withSigns.soundClass.consonant (¬withSigns.IsVowelChar ·) := by
  have hlisted : withSigns.listedVowels ≠ [] := by decide
  obtain ⟨-, hvowel, hconsonant, -⟩ := classes_of_listed hlisted
  exact ⟨hlisted, by decide, by decide, hvowel, hconsonant⟩

end SaveFile

end Glossopoeia
