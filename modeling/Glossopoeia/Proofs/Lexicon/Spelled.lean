import Glossopoeia.Lexicon.WordList
import Glossopoeia.Proofs.Outcome
import Glossopoeia.Proofs.Text.Blank

/-!
# Entries that are spelled as they sound

An entry is spelled if its spelling is what the speller makes of its phonetic form, and no blank
stands in that form.  The second half is what makes the first one stable.  An entry is trimmed when
it is made, after it has been spelled; without blanks there is nothing to trim, so that it does not
matter which of the two comes first (`isSpelled_new`).
-/

set_option autoImplicit false

namespace Glossopoeia

open Outcome Text

/-- The entry has no blank in its phonetic form and is spelled as the speller spells that form. -/
structure LexiconEntry.IsSpelled (speller : Speller) (e : LexiconEntry) : Prop where
  /-- There is no blank in it. -/
  solid : Solid e.phonetic.toList
  /-- It is spelled as it sounds. -/
  spelled : e.spelled = speller.spell e.phonetic

/-- What a speller makes is trimmed. -/
theorem Speller.trimString_spell (speller : Speller) (phonetic : String) :
    trimString (speller.spell phonetic) = speller.spell phonetic := by
  rw [spell, onString, spellChars, trimString, onString, String.toList_ofList, trim_trim]

namespace LexiconEntry

variable {speller : Speller} {e : LexiconEntry} {phonetic : String}

/-- An entry is spelled if it was made of a form and of the spelling of that form once trimmed. -/
theorem isSpelled_new_trimmed (h : Solid (trim phonetic.toList))
    (hphonetic : e.phonetic = trimString phonetic)
    (hspelled : e.spelled = trimString (speller.spell (trimString phonetic))) :
    e.IsSpelled speller where
  solid := by
    rw [hphonetic, trimString, onString, String.toList_ofList]
    exact h
  spelled := by rw [hspelled, hphonetic, speller.trimString_spell]

/-- **Without blanks the spelling may come before the trimming.** -/
theorem isSpelled_new (h : Solid phonetic.toList) (hphonetic : e.phonetic = trimString phonetic)
    (hspelled : e.spelled = trimString (speller.spell phonetic)) : e.IsSpelled speller := by
  refine isSpelled_new_trimmed ?_ hphonetic ?_
  · rw [h.trim_eq]
    exact h
  · rw [hspelled, trimString_of_solid h]

end LexiconEntry

/-- Words whose phonetic forms are solid are entered as spelled. -/
theorem WordList.isSpelled_of_mem_entries {lines : List String} {speller : Speller}
    {entries : List LexiconEntry}
    (hsolid : ∀ line ∈ lines, ∀ word, WordNotation.read line = .ok word →
      Solid word.phonetic.toList)
    (h : WordList.entries lines speller = .ok entries) : ∀ e ∈ entries, e.IsSpelled speller := by
  rw [WordList.entries, bind_eq_ok] at h
  obtain ⟨words, hwords, h⟩ := h
  rw [← pure_eq_ok.1 h]
  intro e he
  obtain ⟨word, hword, he⟩ := List.mem_flatMap.1 he
  obtain ⟨gloss, _, rfl⟩ := List.mem_map.1 he
  obtain ⟨line, hline, hread⟩ := exists_of_mem_mapM hwords word hword
  exact LexiconEntry.isSpelled_new (hsolid line hline word hread) rfl rfl

end Glossopoeia
