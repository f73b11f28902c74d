import Glossopoeia.Language.Build
import Glossopoeia.Proofs.Lexicon.Dedup

/-!
# The declined forms of entries

Two things about declined forms matter for a lexicon as a whole.  A form says that it is declined,
and is derived exactly if its word is.  And the values of the forms depend on the value of the word
alone (`values_declineEntry`): where the word comes from goes into the forms' own record of where
they come from, which plays no part in their value.  So the values of all declined forms of a
lexicon depend on the values of its words, not on which entry stands for a value nor on the order
(`mem_values_flatMap_declineEntry_congr`).
-/

set_option autoImplicit false

namespace Glossopoeia

open LexiconEntry

namespace Decliner

variable (d : Decliner)

/-! ## Where a form comes from -/

theorem provenance_of_mem_declineEntry {d : Decliner} {e f : LexiconEntry}
    (h : f ∈ d.declineEntry e) : f.derived = e.derived ∧ f.declined = true := by
  obtain ⟨v, _, hf⟩ := List.mem_flatMap.1 h
  obtain ⟨gloss, _, rfl⟩ := List.mem_map.1 hf
  exact ⟨rfl, rfl⟩

/-! ## The value of a form -/

/-- The values of a word's forms do not depend on where the word comes from. -/
theorem values_declineRoot (w : RootWord) (derived : Bool) (source : Json) :
    (d.declineRoot { w with derived := derived, source := source }).map value
      = (d.declineRoot w).map value := by
  rw [declineRoot, declineRoot, List.map_flatMap, List.map_flatMap]
  refine List.flatMap_congr fun v _ ↦ ?_
  rw [entriesOf, entriesOf, List.map_map, List.map_map]
  rfl

/-- Words of the same value have forms of the same values. -/
theorem values_declineEntry {a b : LexiconEntry} (h : a.value = b.value) :
    (d.declineEntry a).map value = (d.declineEntry b).map value := by
  have hphonetic : a.phonetic = b.phonetic := congrArg Value.phonetic h
  have henglish : a.english = b.english := congrArg Value.english h
  have hpos : a.partOfSpeech = b.partOfSpeech := congrArg Value.partOfSpeech h
  rw [declineEntry, declineEntry, hphonetic, henglish, hpos]
  exact values_declineRoot d ⟨b.phonetic, b.partOfSpeech, [b.english], b.derived, b.asValue⟩
    a.derived a.asValue

end Decliner

/-! ## The forms of a whole lexicon -/

namespace Blueprint

variable {d : Decliner}

theorem provenance_of_mem_declinedForms {entries : List LexiconEntry} {f : LexiconEntry}
    (h : f ∈ declinedForms d entries) :
    f.declined = true ∧ ∃ e ∈ entries, e.derived = f.derived := by
  obtain ⟨e, he, hf⟩ := List.mem_flatMap.1 h
  obtain ⟨hderived, hdeclined⟩ := Decliner.provenance_of_mem_declineEntry hf
  exact ⟨hdeclined, e, List.mem_of_mem_filter he, hderived.symm⟩

/-- What counts are the entries that are not declined themselves. -/
theorem declinedForms_subset {a b : List LexiconEntry}
    (h : ∀ e ∈ a, e.declined = false → e ∈ b) : declinedForms d a ⊆ declinedForms d b := by
  intro f hf
  obtain ⟨e, he, hf⟩ := List.mem_flatMap.1 hf
  obtain ⟨he, hplain⟩ := List.mem_filter.1 he
  refine List.mem_flatMap.2 ⟨e, List.mem_filter.2 ⟨h e he ?_, hplain⟩, hf⟩
  simpa using hplain

/-- Without declined entries every entry is declined. -/
theorem declinedForms_of_forall {entries : List LexiconEntry}
    (h : ∀ e ∈ entries, e.declined = false) :
    declinedForms d entries = entries.flatMap d.declineEntry := by
  rw [declinedForms, List.filter_eq_self.2]
  intro e he
  simp [h e he]

theorem mem_values_flatMap_declineEntry {entries : List LexiconEntry} {v : Value} :
    v ∈ (entries.flatMap d.declineEntry).map value
      ↔ ∃ e ∈ entries, v ∈ (d.declineEntry e).map value := by
  rw [List.map_flatMap, List.mem_flatMap]

/-- **The same words have the same forms.**  That the one list may have the words in another order
and more than once makes no difference. -/
theorem mem_values_flatMap_declineEntry_congr {a b : List LexiconEntry}
    (h : ∀ v, v ∈ a.map value ↔ v ∈ b.map value) (v : Value) :
    v ∈ (a.flatMap d.declineEntry).map value ↔ v ∈ (b.flatMap d.declineEntry).map value := by
  have hstep : ∀ {a b : List LexiconEntry}, (∀ v, v ∈ a.map value → v ∈ b.map value) →
      v ∈ (a.flatMap d.declineEntry).map value → v ∈ (b.flatMap d.declineEntry).map value := by
    intro a b h hv
    obtain ⟨e, he, hv⟩ := mem_values_flatMap_declineEntry.1 hv
    obtain ⟨e', he', hvalue⟩ := List.mem_map.1 (h e.value (List.mem_map_of_mem he))
    rw [← d.values_declineEntry hvalue] at hv
    exact mem_values_flatMap_declineEntry.2 ⟨e', he', hv⟩
  exact ⟨hstep fun v ↦ (h v).1, hstep fun v ↦ (h v).2⟩

end Blueprint

end Glossopoeia
