import Glossopoeia.Lexicon.WordNotation
import Glossopoeia.Proofs.Text.Cuts

/-!
# Writing a word down and reading it

`WordNotation.written` is the usual way to write a word down, and `WordNotation.read_written` says
that reading gives the word back, with a remark on its origin behind it or without.  The parts of
the word have to be trimmed and free of the four separators; the remark is any text whatever.

Reading trims the glosses before it splits them and again after it, and the second time makes the
first one irrelevant (`Text.map_trim_split_trim`).
-/

set_option autoImplicit false

namespace Glossopoeia

open Text

namespace WordNotation

/-- How a word is written down, with a remark on its origin if there is one. -/
def written (word : WordNotation) (origin : Option String) : String :=
  ", ".intercalate word.glosses ++ " : " ++ word.partOfSpeech ++ " = " ++ word.phonetic ++
    (origin.map (" < " ++ ·)).getD ""

/-- A text that can be a part of a written word: it is trimmed, and has none of the separators. -/
structure IsPart (s : String) : Prop where
  /-- It is trimmed. -/
  trimmed : trimString s = s
  /-- It has no character that would end it. -/
  noSeparator : ∀ c ∈ [',', ':', '=', '<'], c ∉ s.toList

/-- A word all of whose parts can be written. -/
structure IsWritable (word : WordNotation) : Prop where
  /-- It means something. -/
  glosses_ne_nil : word.glosses ≠ []
  /-- The glosses can be written. -/
  glosses : ∀ gloss ∈ word.glosses, IsPart gloss
  /-- The part of speech can. -/
  partOfSpeech : IsPart word.partOfSpeech
  /-- What it sounds like can. -/
  phonetic : IsPart word.phonetic

theorem IsPart.trim_eq {s : String} (h : IsPart s) : trim s.toList = s.toList := by
  rw [← String.toList_ofList (l := trim s.toList)]
  exact congrArg String.toList h.trimmed

/-- Blanks around a part are trimmed away. -/
theorem IsPart.trim_spaces {s : String} (h : IsPart s) {gap : List Char} (hgap : allBlank gap) :
    trim (' ' :: (s.toList ++ gap)) = s.toList :=
  @trim_append_append [' '] s.toList gap rfl hgap h.trim_eq

variable {word : WordNotation}

/-- A remark on the origin of a word is cut off, and so are the blanks before it. -/
theorem trim_before_origin (h : IsPart word.phonetic) (origin : Option String) :
    trim (before '<' (' ' :: (word.phonetic.toList
      ++ ((origin.map (" < " ++ ·)).getD "").toList))) = word.phonetic.toList := by
  have hmark : '<' ∉ ' ' :: (word.phonetic.toList ++ [' ']) := by
    simpa using h.noSeparator '<' (by decide)
  cases origin with
  | none =>
    rw [before_of_notMem (by simpa using hmark)]
    exact h.trim_spaces rfl
  | some origin =>
    have htext : ' ' :: (word.phonetic.toList
          ++ (((some origin).map (" < " ++ ·)).getD "").toList)
        = ' ' :: (word.phonetic.toList ++ [' ']) ++ '<' :: (' ' :: origin.toList) := by
      simp
    rw [htext, before_append_cons hmark]
    exact h.trim_spaces rfl

/-- **A word that has been written down is read as it was.** -/
theorem read_written (h : word.IsWritable) (origin : Option String) :
    read (word.written origin) = .ok word := by
  have htext : (word.written origin).toList
      = ([',', ' '].intercalate (word.glosses.map String.toList) ++ [' ']) ++ ':' ::
        ((' ' :: (word.partOfSpeech.toList ++ [' '])) ++ '=' ::
          (' ' :: (word.phonetic.toList ++ ((origin.map (" < " ++ ·)).getD "").toList))) := by
    simp [written, String.toList_intercalate]
  have hpieces (c : Char) (hc : c ∈ [',', ':', '=', '<']) :
      ∀ piece ∈ word.glosses.map String.toList, trim piece = piece ∧ c ∉ piece :=
    List.forall_mem_map.2 fun gloss hgloss ↦
      ⟨(h.glosses gloss hgloss).trim_eq, (h.glosses gloss hgloss).noSeparator c hc⟩
  have hcolon : ':' ∉ [',', ' '].intercalate (word.glosses.map String.toList) ++ [' '] := by
    simpa using notMem_intercalate (by decide) fun piece hpiece ↦
      (hpieces ':' (by decide) piece hpiece).2
  have hequals : '=' ∉ ' ' :: (word.partOfSpeech.toList ++ [' ']) := by
    simpa using h.partOfSpeech.noSeparator '=' (by decide)
  have hsplit := map_trim_split_intercalate (by decide : isBlank ',' = false)
    (by simpa using h.glosses_ne_nil) (hpieces ',' (by decide))
  rw [← map_trim_split_trim (by decide)] at hsplit
  have hglosses : (split ',' (trim ([',', ' '].intercalate (word.glosses.map String.toList)
      ++ [' ']))).map (fun gloss ↦ String.ofList (trim gloss)) = word.glosses := by
    simpa [Function.comp_def] using congrArg (List.map String.ofList) hsplit
  rw [read, htext, cut_append_cons hcolon]
  dsimp only
  rw [cut_append_cons hequals]
  dsimp only
  rw [trim_before_origin h.phonetic, h.partOfSpeech.trim_spaces rfl, String.ofList_toList,
    String.ofList_toList, hglosses]

end WordNotation

end Glossopoeia
