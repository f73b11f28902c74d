import Glossopoeia.GrammarTable.Walk
import Glossopoeia.Proofs.Outcome

/-!
# The entries of grammar tables

A grammar makes entries in two places: a cell of a word table is a word, and a particle rule of a
finished table is one word or two.  Either way the entry is new and has one label, so whatever holds
of all such entries holds of every entry that a grammar makes (`forall_mem_compile`).  The walk
carries this from line to line; the lines that only change the table in hand leave the entries
alone.
-/

set_option autoImplicit false

namespace Glossopoeia

open Outcome Text

/-- Does `P` hold of every new entry with one label, whatever else is known of it? -/
def HoldsOfNew (P : LexiconEntry → Prop) : Prop :=
  ∀ phonetic spelled english partOfSpeech label,
    P (.new phonetic spelled english partOfSpeech [label])

namespace GrammarTables

variable {P : LexiconEntry → Prop}

theorem forall_mem_particleEntries (hP : HoldsOfNew P) (o : Orthography) (rule : DeclensionRule) :
    ∀ e ∈ particleEntries o rule, P e := by
  intro e he
  rw [particleEntries] at he
  split at he
  · rcases List.mem_cons.1 he with rfl | he
    · exact hP ..
    · rw [List.mem_singleton.1 he]
      exact hP ..
  · rw [List.mem_singleton.1 he]
    exact hP ..
  · exact absurd he List.not_mem_nil
  · exact absurd he List.not_mem_nil

theorem forall_mem_addBucket (hP : HoldsOfNew P) {o : Orthography} {targets : List String}
    {tables : GrammarTables} (h : ∀ e ∈ tables.entries, P e) (bucket : Bucket)
    (rules : List DeclensionRule) :
    ∀ e ∈ (tables.addBucket o targets bucket rules).entries, P e := by
  rw [addBucket]
  split
  · intro e he
    rcases List.mem_append.1 he with he | he
    · exact h e he
    · obtain ⟨rule, _, he⟩ := List.mem_flatMap.1 he
      exact forall_mem_particleEntries hP o rule e he
  · exact h

theorem forall_mem_flush (hP : HoldsOfNew P) {o : Orthography} {nounTags : List String}
    (s : TableState) {tables : GrammarTables} (h : ∀ e ∈ tables.entries, P e) :
    ∀ e ∈ (tables.flush o nounTags s).entries, P e := by
  rw [flush]
  split
  · exact h
  · -- The buckets are moved one after the other, so the fold keeps what each of them keeps.
    refine List.foldlRecOn (motive := fun t : GrammarTables ↦ ∀ e ∈ t.entries, P e) _ _ h ?_
    intro t ht bucket _
    exact forall_mem_addBucket hP ht bucket.1 bucket.2

end GrammarTables

namespace GrammarWalk

variable {P : LexiconEntry → Prop}

/-- **What a cell does**: in an affix table it files a rule, in a word table it adds a word, and in
any other table it does nothing. -/
theorem of_readCell {o : Orthography} {w w' : GrammarWalk} {line : String}
    {path content : List Char} (h : w.readCell o line path content = .ok w') :
    ∃ declension, w.state.labels.resolve path line = .ok declension ∧
      ((∃ kind affix, w.state.tableType ∈ ["affix", "prefix", "postfix"] ∧
          o.compileCell (ruleText content) = .ok (kind, affix) ∧
          w' = { w with state := w.state.addRule kind ⟨declension, affix⟩ }) ∨
        (∃ english form, w.state.tableType = "word" ∧ cut '=' content = some (english, form) ∧
          w' = { w with tables := { w.tables with entries := w.tables.entries ++
            [.new (String.ofList (trim (before '=' form)))
              (o.speller.spell (String.ofList (trim (before '=' form)))) (String.ofList english)
              w.state.partOfSpeech [declension]] } }) ∨
        (w.state.tableType ≠ "word" ∧ w' = w)) := by
  rw [readCell, bind_eq_ok] at h
  obtain ⟨declension, hdeclension, h⟩ := h
  refine ⟨declension, hdeclension, ?_⟩
  split at h
  · next htype =>
    obtain ⟨⟨kind, affix⟩, hcell, h⟩ := bind_eq_ok.1 h
    exact .inl ⟨kind, affix, htype, hcell, (pure_eq_ok.1 h).symm⟩
  · split at h
    · next htype =>
      split at h
      · cases h
      · next english form hcut =>
        split at h
        · cases h
        · exact .inr (.inl ⟨english, form, htype, hcut, (pure_eq_ok.1 h).symm⟩)
    · next htype => exact .inr (.inr ⟨htype, (pure_eq_ok.1 h).symm⟩)

theorem forall_mem_readCell (hP : HoldsOfNew P) {o : Orthography} {w w' : GrammarWalk}
    {line : String} {path content : List Char} (hw : ∀ e ∈ w.tables.entries, P e)
    (h : w.readCell o line path content = .ok w') : ∀ e ∈ w'.tables.entries, P e := by
  obtain ⟨declension, -, ⟨kind, affix, -, -, rfl⟩ | ⟨english, form, -, -, rfl⟩ | ⟨-, rfl⟩⟩ :=
    of_readCell h
  · exact hw
  · intro e he
    rcases List.mem_append.1 he with he | he
    · exact hw e he
    · rw [List.mem_singleton.1 he]
      exact hP ..
  · exact hw

theorem forall_mem_step (hP : HoldsOfNew P) {o : Orthography} {nounTags : List String}
    {w w' : GrammarWalk} {raw : String} (hw : ∀ e ∈ w.tables.entries, P e)
    (h : w.step o nounTags raw = .ok w') : ∀ e ∈ w'.tables.entries, P e := by
  have hfinish : ∀ e ∈ (w.finishTable o nounTags).tables.entries, P e :=
    GrammarTables.forall_mem_flush hP w.state hw
  rw [step] at h
  split at h
  · cases h
    exact hfinish
  · cases h
    exact hw
  · cases h
    split
    · exact hw
    · exact hfinish
  · exact forall_mem_readCell hP hw h
  · cases h
    exact hw

end GrammarWalk

/-- **What holds of all new entries with one label holds of those that a grammar makes.** -/
theorem GrammarTables.forall_mem_compile {P : LexiconEntry → Prop} (hP : HoldsOfNew P)
    {o : Orthography} {partsOfSpeech : StringSet} {lines : List String} {tables : GrammarTables}
    (h : GrammarTables.compile o partsOfSpeech lines = .ok tables) : ∀ e ∈ tables.entries, P e := by
  rw [GrammarTables.compile, bind_eq_ok] at h
  obtain ⟨w, hw, h⟩ := h
  rw [← pure_eq_ok.1 h]
  refine GrammarTables.forall_mem_flush hP w.state ?_
  refine foldlM_keeps (P := fun w : GrammarWalk ↦ ∀ e ∈ w.tables.entries, P e)
    (fun w line w' hw h ↦ GrammarWalk.forall_mem_step hP hw h) ?_ hw
  intro e he
  exact absurd he List.not_mem_nil

end Glossopoeia
