import Glossopoeia.Proofs.Declension.Selections
import Glossopoeia.Proofs.Lexicon.WordNotation

/-!
# One word in three shapes

A word can be declined as a written line, by what declension needs to know of it, or as an entry.
`Decliner.decline_written` says that this makes no difference.  A line with several glosses is
declined once, and every form of it has an entry for each gloss in turn; so the entries for one
gloss, which are equally spaced among all of them, are those of the word with that gloss alone.
Only their record of where they come from is another, since it names the first gloss of the line.
-/

set_option autoImplicit false

namespace Glossopoeia

open Outcome Text

/-- The entry with nothing more known about it. -/
def LexiconEntry.withoutMetadata (e : LexiconEntry) : LexiconEntry :=
  { e with metadata := .object [] }

/-- In a table that is read row by row, a column is equally spaced. -/
theorem getElem?_flatMap_map {α β γ : Type} (f : α → β → γ) (rows : List α) {cols : List β}
    {i : Nat} {b : β} (hb : cols[i]? = some b) (j : Nat) :
    (rows.flatMap fun a ↦ cols.map (f a))[j * cols.length + i]? = rows[j]?.map (f · b) := by
  have hi : i < cols.length := (List.getElem?_eq_some_iff.1 hb).1
  induction rows generalizing j with
  | nil => simp
  | cons a rows ih =>
    rw [List.flatMap_cons]
    cases j with
    | zero =>
      rw [List.getElem?_append_left (by simpa using hi)]
      simp [hb]
    | succ j =>
      have hplace : (j + 1) * cols.length + i
          = (cols.map (f a)).length + (j * cols.length + i) := by
        rw [List.length_map, Nat.succ_mul]
        omega
      rw [hplace, List.getElem?_append_right (Nat.le_add_right _ _), Nat.add_sub_cancel_left, ih]
      rfl

namespace Decliner

variable (d : Decliner) (w : RootWord) {gloss : String}

/-- The entry of a form for a gloss. -/
def entryOf (v : Variant) (gloss : String) : LexiconEntry :=
  { LexiconEntry.new (String.ofList v.phonetic) (d.speller.spell (String.ofList v.phonetic)) gloss
      v.partOfSpeech v.declension with
    derived := w.derived
    declined := true
    metadata := .object [("source", .object [("declined_word", w.source)])] }

theorem declineRoot_eq : d.declineRoot w
    = (Variant.dedup (d.variants w)).flatMap fun v ↦ w.glosses.map (d.entryOf w v) := rfl

/-- A word with one gloss has one entry of every form. -/
theorem declineRoot_gloss (gloss : String) (source : Json) :
    (d.declineRoot { w with glosses := [gloss], source := source }).map
        LexiconEntry.withoutMetadata
      = (Variant.dedup (d.variants w)).map fun v ↦ (d.entryOf w v gloss).withoutMetadata := by
  have hforms : d.declineRoot { w with glosses := [gloss], source := source }
      = (Variant.dedup (d.variants w)).map fun v ↦
        d.entryOf { w with glosses := [gloss], source := source } v gloss :=
    List.map_eq_flatMap.symm
  rw [hforms, List.map_map]
  rfl

variable {w}

/-- The entries for the gloss at place `i` are those at the places `i`, `i + n`, `i + 2 * n` and so
on, where `n` is the number of glosses. -/
theorem getElem?_declineRoot {i : Nat} (hgloss : w.glosses[i]? = some gloss) (source : Json)
    (j : Nat) :
    (d.declineRoot w)[j * w.glosses.length + i]?.map LexiconEntry.withoutMetadata
      = (d.declineRoot { w with glosses := [gloss], source := source })[j]?.map
        LexiconEntry.withoutMetadata := by
  have hforms := congrArg (·[j]?) (d.declineRoot_gloss w gloss source)
  simp only [List.getElem?_map] at hforms
  rw [hforms, declineRoot_eq, getElem?_flatMap_map _ _ hgloss, Option.map_map]
  rfl

/-- The entries for a gloss that is given once are those that bear it. -/
theorem filter_declineRoot (htrim : ∀ g ∈ w.glosses, trimString g = g)
    (hcount : w.glosses.count gloss = 1) (source : Json) :
    ((d.declineRoot w).filter (·.english = gloss)).map LexiconEntry.withoutMetadata
      = (d.declineRoot { w with glosses := [gloss], source := source }).map
        LexiconEntry.withoutMetadata := by
  have hglosses : w.glosses.filter (fun g ↦ trimString g = gloss) = [gloss] := by
    rw [List.filter_congr fun g hg ↦ by rw [htrim g hg], List.filter_eq, hcount]
    rfl
  have hform (v : Variant) : (w.glosses.map (d.entryOf w v)).filter (·.english = gloss)
      = [d.entryOf w v gloss] := by
    rw [List.filter_map]
    exact congrArg (List.map (d.entryOf w v)) hglosses
  rw [declineRoot_gloss, declineRoot_eq, List.filter_flatMap]
  simp only [hform, ← List.map_eq_flatMap, List.map_map]
  rfl

/-! ## Written words -/

/-- **A word is declined alike in every shape.**  A written line is declined, whatever is remarked
on the origin of the word.  Each gloss has entries that are, in order, those of the word with that
gloss alone, up to the record of where they come from: they are as far apart as there are glosses,
and are all the entries that bear the gloss if it is given only once.  If it is the only gloss, the
line, the word's parts and its entry, which is not derived, all have the same declined forms. -/
theorem decline_written {word : WordNotation} (h : word.IsWritable) (origin : Option String)
    (derived : Bool) :
    ∃ entries, d.decline (.line (word.written origin)) derived = .ok entries ∧
      (∀ i gloss, word.glosses[i]? = some gloss → ∃ forms,
        d.decline (.fields word.phonetic word.partOfSpeech gloss) derived = .ok forms ∧
        (∀ j, entries[j * word.glosses.length + i]?.map LexiconEntry.withoutMetadata
          = forms[j]?.map LexiconEntry.withoutMetadata) ∧
        (word.glosses.count gloss = 1 →
          (entries.filter (·.english = gloss)).map LexiconEntry.withoutMetadata
            = forms.map LexiconEntry.withoutMetadata)) ∧
      ∀ gloss, word.glosses = [gloss] →
        d.decline (.fields word.phonetic word.partOfSpeech gloss) derived = .ok entries ∧
        (derived = false → ∀ flag, d.decline (.entry (LexiconEntry.new word.phonetic
          (d.speller.spell word.phonetic) gloss word.partOfSpeech [])) flag = .ok entries) := by
  refine ⟨d.declineRoot {
    phonetic := word.phonetic
    partOfSpeech := word.partOfSpeech
    glosses := word.glosses
    derived := derived
    source := WordInput.sourceOf d.speller word.phonetic (word.glosses.headD "")
      word.partOfSpeech }, ?_, fun i gloss hgloss ↦ ⟨_, rfl, ?_, fun hcount ↦ ?_⟩,
    fun gloss hgloss ↦ ⟨?_, ?_⟩⟩
  · rw [decline, WordInput.toRoot, WordNotation.read_written h]
    rfl
  · exact d.getElem?_declineRoot hgloss _
  · exact d.filter_declineRoot (fun g hg ↦ (h.glosses g hg).trimmed) hcount _
  · rw [hgloss]
    rfl
  · rintro rfl flag
    have hpart : WordNotation.IsPart gloss :=
      h.glosses gloss (hgloss ▸ List.mem_singleton_self gloss)
    have hroot : (WordInput.entry (LexiconEntry.new word.phonetic (d.speller.spell word.phonetic)
        gloss word.partOfSpeech [])).toRoot d.speller flag
          = .ok ⟨trimString word.phonetic, trimString word.partOfSpeech, [trimString gloss], false,
            WordInput.sourceOf d.speller word.phonetic gloss word.partOfSpeech⟩ := rfl
    rw [decline, hroot, h.phonetic.trimmed, h.partOfSpeech.trimmed, hpart.trimmed, hgloss]
    rfl

/-- The dog or hound, to be written down. -/
def dogOrHound : WordNotation := ⟨["dog", "hound"], "n", "dɔg"⟩

theorem isWritable_dogOrHound : dogOrHound.IsWritable where
  glosses_ne_nil := List.cons_ne_nil _ _
  glosses := List.forall_mem_cons.2
    ⟨⟨by decide, by simp⟩, List.forall_mem_singleton.2 ⟨by decide, by simp⟩⟩
  partOfSpeech := ⟨by decide, by simp [dogOrHound]⟩
  phonetic := ⟨by decide, by simp [dogOrHound]⟩

/-- Every second entry of the dog or hound is one of the hound. -/
theorem decline_written_hound : ∃ d entries forms,
    ofAffixMap articlesAndPlurals ⟨[]⟩ = .ok d ∧ dogOrHound.IsWritable ∧
    dogOrHound.written (some "old") = "dog, hound : n = dɔg < old" ∧
    d.decline (.line "dog, hound : n = dɔg < old") false = .ok entries ∧
    d.decline (.fields "dɔg" "n" "hound") false = .ok forms ∧
    (∀ j, entries[j * 2 + 1]?.map LexiconEntry.withoutMetadata
      = forms[j]?.map LexiconEntry.withoutMetadata) ∧
    (entries.filter (·.english = "hound")).map LexiconEntry.withoutMetadata
      = forms.map LexiconEntry.withoutMetadata := by
  obtain ⟨d, hd⟩ := exists_eq_ok_of_isOk
    (by decide : (ofAffixMap articlesAndPlurals ⟨[]⟩).isOk = true)
  have hwritten : dogOrHound.written (some "old") = "dog, hound : n = dɔg < old" := by
    decide
  obtain ⟨entries, hentries, hglosses, -⟩ :=
    d.decline_written isWritable_dogOrHound (some "old") false
  obtain ⟨forms, hforms, hplaces, hfilter⟩ := hglosses 1 "hound" rfl
  rw [hwritten] at hentries
  exact ⟨d, entries, forms, hd, isWritable_dogOrHound, hwritten, hentries, hforms, hplaces,
    hfilter (by decide)⟩

end Decliner

end Glossopoeia
