import Glossopoeia.Proofs.Declension.Selections
import Glossopoeia.Proofs.Derivation.Roots
import Glossopoeia.Proofs.Language.Document

/-!
# Forms that lead back to their word

Every declined form carries the record of the word that it was made from.  If the word is an entry,
the record is the whole entry as a value proper, its keys in ascending order and not in the order in
which an entry is written (`LexiconEntry.asValue_eq`).  An entry is read by its keys, so the record
is read as the entry that it was (`LexiconEntry.decode_asValue`), and as nothing but an entry:
`WordInput.ofJson` takes a value for an entry before it looks for the mere parts of a word.  So the
word can be recovered from any of its forms, and declined again (`Decliner.decline_source`).
-/

set_option autoImplicit false

namespace Glossopoeia

open Outcome

/-- The entry as a value proper: its fields in the order of their keys. -/
theorem LexiconEntry.asValue_eq (e : LexiconEntry) : e.asValue = .object
    [("declensions", .texts e.declensions), ("declined_word", .bool e.declined),
     ("derived_word", .bool e.derived), ("english", .text e.english),
     ("metadata", e.metadata.normalize), ("part_of_speech", .text e.partOfSpeech),
     ("phonetic", .text e.phonetic), ("spelled", .text e.spelled)] := by
  have hlabels : (Json.texts e.declensions).normalize = Json.texts e.declensions :=
    (Json.Held.list (List.forall_mem_map.2 fun _ _ ↦ ⟨rfl, rfl⟩)).normalize_eq
  rw [asValue, toJson, Json.normalize]
  simp only [Json.normalizeFields, hlabels]
  rfl

/-- **An entry is read from its record as what it was**, though the fields stand there in another
order. -/
theorem LexiconEntry.decode_asValue {e : LexiconEntry} (h : e.metadata.Held) :
    record.decode e.asValue = .ok e := by
  rw [asValue_eq, h.normalize_eq, Record.decode, record]
  simp [Record.readObject, Field.of, Decoder.text, Decoder.bool, Decoder.texts_ok,
    Decoder.value_ok h, Except.map]

/-- The record of an entry is a word in the shape of an entry. -/
theorem WordInput.ofJson_asValue {e : LexiconEntry} (h : e.metadata.Held) :
    ofJson e.asValue = .ok (entry e) := by
  have hdecode := LexiconEntry.decode_asValue h
  rw [LexiconEntry.asValue_eq] at hdecode ⊢
  rw [ofJson]
  · rw [hdecode]
  · exact fun s heq ↦ Json.noConfusion heq

namespace Decliner

theorem source?_of_mem_declineRoot {d : Decliner} {w : RootWord} {f : LexiconEntry}
    (h : f ∈ d.declineRoot w) : f.source? = some (.object [("declined_word", w.source)]) := by
  obtain ⟨v, _, hf⟩ := List.mem_flatMap.1 h
  obtain ⟨gloss, _, rfl⟩ := List.mem_map.1 hf
  rfl

/-- **Every declined form leads back to its word.**  An entry is declined, whatever is said of its
derivation besides; the record that a form of it carries is read as an entry, which is the same in
every field; and what is read has the same declined forms again. -/
theorem decline_source (d : Decliner) (w : LexiconEntry) (hw : w.metadata.Held) (derived : Bool) :
    ∃ forms, d.decline (.entry w) derived = .ok forms ∧
      ∀ f ∈ forms, ∃ source record, f.source? = some source ∧
        source.field? "declined_word" = some record ∧
        WordInput.ofJson record = .ok (.entry w) ∧
        ∀ derived', d.decline (.entry w) derived' = .ok forms := by
  refine ⟨d.declineEntry w, d.decline_entry w derived, fun f hf ↦ ?_⟩
  exact ⟨_, w.asValue, source?_of_mem_declineRoot hf, rfl, WordInput.ofJson_asValue hw,
    d.decline_entry w⟩

/-- Nouns have a singular, which is the word itself, and a plural. -/
def numbers : AffixMap :=
  ⟨[("n", [⟨.back, [⟨"Singular", .empty⟩, plural]⟩])], List.pairwise_singleton _ _⟩

/-- An old house that was derived and declined, with remarks. -/
def oldHouse : LexiconEntry :=
  ⟨"ka", "ca", "house", "n", ["Old"], true, true,
    .object [("remarks", .list [.null, .int (-3)]),
      ("source", .object [("derived_word", .text "house : n = home")])]⟩

/-- The old house has two forms, and each of them leads back to it. -/
theorem decline_source_oldHouse : ∃ d forms, ofAffixMap numbers ⟨[]⟩ = .ok d ∧
    oldHouse.metadata.Held ∧ d.decline (.entry oldHouse) false = .ok forms ∧ forms.length = 2 ∧
    ∀ f ∈ forms, ∃ source record, f.source? = some source ∧
      source.field? "declined_word" = some record ∧
      WordInput.ofJson record = .ok (.entry oldHouse) ∧
      ∀ derived', d.decline (.entry oldHouse) derived' = .ok forms := by
  have hcount : (ofAffixMap numbers ⟨[]⟩).map (fun d ↦ (d.declineEntry oldHouse).length)
      = .ok 2 := by decide +kernel
  obtain ⟨d, hd, hlength⟩ := map_eq_ok.1 hcount
  have hheld : oldHouse.metadata.Held := ⟨rfl, rfl⟩
  obtain ⟨forms, hforms, hsource⟩ := d.decline_source oldHouse hheld false
  cases hforms
  exact ⟨d, _, hd, hheld, rfl, hlength, hsource⟩

end Decliner

end Glossopoeia
