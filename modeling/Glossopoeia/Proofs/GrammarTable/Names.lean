import Glossopoeia.Proofs.Declension.Slots
import Glossopoeia.Proofs.GrammarTable.Items

/-!
# The entries of a grammar are no roots

A word of a word table and a particle are named by a label, and no label begins with a small `r`.
So none of them is taken for a root, and every root of a lexicon comes from the word list or from
the derivations (`GrammarTables.isRoot_eq_false_of_mem_compile`).
-/

set_option autoImplicit false

namespace Glossopoeia

open LexiconEntry Outcome Text

/-- Rules with proper names. -/
abbrev IsProperlyNamed (_ : AffixKind) (rule : DeclensionRule) : Prop :=
  Labels.IsProper rule.declension

namespace GrammarWalk

variable {P : AffixKind → DeclensionRule → Prop} {o : Orthography} {nounTags : List String}
  {w : GrammarWalk}

/-- What a walk keeps of its rules holds of the rules of every table that it finishes. -/
theorem Holds.of_mem_items (hP : o.HoldsOfCells P) (hw : w.Holds P) {lines : List String}
    {s : TableState} (h : .table s ∈ w.items o nounTags lines) :
    ∀ entry ∈ s.filed, Bucket.Holds P entry := by
  induction lines generalizing w with
  | nil =>
    cases List.mem_singleton.1 h
    exact hw.filed
  | cons raw rest ih =>
    rw [items] at h
    rcases List.mem_append.1 h with h | h
    · rw [itemsOf] at h
      split at h
      · cases List.mem_singleton.1 h
        exact hw.filed
      · split at h
        · exact absurd h List.not_mem_nil
        · cases List.mem_singleton.1 h
          exact hw.filed
      · obtain ⟨_, _, heq⟩ := List.mem_map.1 h
        cases heq
      · exact absurd h List.not_mem_nil
    · split at h
      · next next hnext => exact ih (hw.step hP hnext) h
      · exact absurd h List.not_mem_nil

theorem isProper_of_wordCell? (hw : w.state.labels.AreProper) {raw : String} {cell : WordCell}
    (h : w.wordCell? raw = some cell) : Labels.IsProper cell.label := by
  rw [wordCell?] at h
  split at h
  · split at h
    · split at h
      · next hlabel =>
        cases h
        exact hw.isProper_of_resolve hlabel
      · cases h
    · cases h
  · cases h

end GrammarWalk

namespace TableState

/-- Particles are labelled by the names of their rules, perhaps with a remark before them. -/
theorem isProper_of_mem_particles {o : Orthography} {s : TableState}
    (hs : ∀ entry ∈ s.filed, Bucket.Holds IsProperlyNamed entry) {e : LexiconEntry}
    (he : e ∈ s.particles o) : ∀ label ∈ e.declensions, Labels.IsProper label := by
  obtain ⟨entry, hentry, he⟩ := List.mem_flatMap.1 he
  rw [particlesOf] at he
  split at he
  · obtain ⟨rule, hrule, he⟩ := List.mem_flatMap.1 he
    have hname : Labels.IsProper rule.declension := hs entry hentry .particle rule hrule
    have hvowel := Labels.isProper_append (show Labels.IsProper "Vowel " by decide) hname
    have hconsonant := Labels.isProper_append (show Labels.IsProper "Consonant " by decide) hname
    rw [GrammarTables.particleEntries] at he
    split at he
    · split at he
      next yes no hremarks =>
      have hboth : Labels.IsProper (yes ++ rule.declension) ∧
          Labels.IsProper (no ++ rule.declension) := by
        split at hremarks <;> cases hremarks
        · exact ⟨hvowel, hconsonant⟩
        · exact ⟨hconsonant, hvowel⟩
      rcases List.mem_cons.1 he with rfl | he
      · exact List.forall_mem_singleton.2 hboth.1
      · rw [List.mem_singleton.1 he]
        exact List.forall_mem_singleton.2 hboth.2
    · cases List.mem_singleton.1 he
      exact List.forall_mem_singleton.2 hname
    · exact absurd he List.not_mem_nil
    · exact absurd he List.not_mem_nil
  · exact absurd he List.not_mem_nil

end TableState

/-- **No entry of a grammar is a root.** -/
theorem GrammarTables.isRoot_eq_false_of_mem_compile {o : Orthography} {partsOfSpeech : StringSet}
    {lines : List String} {tables : GrammarTables}
    (h : GrammarTables.compile o partsOfSpeech lines = .ok tables) :
    ∀ e ∈ tables.entries, e.isRoot = false := by
  have hcells : o.HoldsOfCells IsProperlyNamed := fun _ _ _ _ hname _ _ ↦ hname
  intro e he
  refine isRoot_of_isProper ?_
  rw [entries_compile h, List.mem_flatMap] at he
  obtain ⟨item, hitem, he⟩ := he
  cases item with
  | word cell =>
    obtain ⟨w, raw, ⟨_, _, _, hwalk⟩, hcell⟩ := GrammarWalk.exists_reads_of_mem_items hitem
    have hw : w.Holds IsProperlyNamed := GrammarWalk.holds_start.walk hcells hwalk
    rw [List.mem_singleton.1 he]
    exact List.forall_mem_singleton.2 (GrammarWalk.isProper_of_wordCell? hw.labels hcell)
  | table s =>
    exact TableState.isProper_of_mem_particles
      (GrammarWalk.holds_start.of_mem_items hcells hitem) he

end Glossopoeia
