import Glossopoeia.Proofs.GrammarTable.Entries
import Glossopoeia.Proofs.GrammarTable.Labels

/-!
# The rules of grammar tables

A rule comes into a grammar by one cell and stays as it is: it is filed under its kind, perhaps
after it has waited for one, and ends up in a slot of that kind.  So whatever holds of the rules
that cells compile to, each with the kind that it has or may come to have, holds of every rule of
every slot (`holdsOfSlots_compile`).  The walk carries this from line to line, together with what
makes the names of the rules good: the labels of the table in hand are proper.
-/

set_option autoImplicit false

namespace Glossopoeia

open Outcome

/-- Does `P` hold of the rules of a bucket?  Rules that wait for a kind may come to have any. -/
def Bucket.Holds (P : AffixKind → DeclensionRule → Prop)
    (entry : Bucket × List DeclensionRule) : Prop :=
  ∀ kind, ∀ rule ∈ entry.2, P (entry.1.getD kind) rule

/-- Does `P` hold of the rules of all slots? -/
def AffixMap.Holds (P : AffixKind → DeclensionRule → Prop) (map : AffixMap) : Prop :=
  ∀ slots ∈ map.values, ∀ slot ∈ slots, ∀ rule ∈ slot.rules, P slot.kind rule

/-- Does `P` hold of all rules that cells compile to, under any proper name? -/
def Orthography.HoldsOfCells (o : Orthography) (P : AffixKind → DeclensionRule → Prop) : Prop :=
  ∀ declension content kind affix, Labels.IsProper declension →
    o.compileCell content = .ok (kind, affix) → ∀ k, P (kind.getD k) ⟨declension, affix⟩

variable {P : AffixKind → DeclensionRule → Prop}

/-! ## The table in hand -/

namespace TableState

theorem holds_fileUnder {bucket : Bucket} {rule : DeclensionRule}
    {filed : List (Bucket × List DeclensionRule)} (hrule : ∀ k, P (bucket.getD k) rule)
    (hfiled : ∀ entry ∈ filed, Bucket.Holds P entry) :
    ∀ entry ∈ fileUnder bucket rule filed, Bucket.Holds P entry := by
  induction filed with
  | nil =>
    intro entry hentry kind r hr
    rw [List.mem_singleton.1 hentry] at hr ⊢
    rw [List.mem_singleton.1 hr]
    exact hrule kind
  | cons head rest ih =>
    obtain ⟨b, rules⟩ := head
    rw [List.forall_mem_cons] at hfiled
    rw [fileUnder]
    split
    · next hb =>
      subst hb
      rw [List.forall_mem_cons]
      refine ⟨fun kind r hr ↦ ?_, hfiled.2⟩
      rcases List.mem_append.1 hr with hr | hr
      · exact hfiled.1 kind r hr
      · rw [List.mem_singleton.1 hr]
        exact hrule kind
    · rw [List.forall_mem_cons]
      exact ⟨hfiled.1, ih hfiled.2⟩

theorem holds_settle (kind : AffixKind) {filed : List (Bucket × List DeclensionRule)}
    (hfiled : ∀ entry ∈ filed, Bucket.Holds P entry) :
    ∀ entry ∈ settle kind filed, Bucket.Holds P entry := by
  induction filed with
  | nil => exact hfiled
  | cons head rest ih =>
    obtain ⟨b, rules⟩ := head
    rw [List.forall_mem_cons] at hfiled
    cases b with
    | none =>
      rw [settle, List.forall_mem_cons]
      exact ⟨fun _ r hr ↦ hfiled.1 kind r hr, hfiled.2⟩
    | some k =>
      rw [settle, List.forall_mem_cons]
      · exact ⟨hfiled.1, ih hfiled.2⟩
      · rintro _ ⟨⟩

/-- A rule goes to the bucket of its kind; one without a kind of its own may go to any. -/
theorem holds_addRule {s : TableState} {kind : Option AffixKind} {rule : DeclensionRule}
    (hrule : ∀ k, P (kind.getD k) rule) (hfiled : ∀ entry ∈ s.filed, Bucket.Holds P entry) :
    ∀ entry ∈ (s.addRule kind rule).filed, Bucket.Holds P entry := by
  cases kind with
  | none => exact holds_fileUnder (fun k ↦ hrule _) hfiled
  | some kind =>
    rw [addRule.eq_def]
    refine holds_fileUnder hrule ?_
    split
    · exact holds_settle kind hfiled
    · exact hfiled

end TableState

/-! ## Finished tables -/

namespace GrammarTables

theorem holds_empty : AffixMap.Holds P Dictionary.empty :=
  fun _ h ↦ absurd h Dictionary.not_mem_values_empty

/-- A change of a part of speech's slots that puts only good rules there. -/
theorem holds_alter {map : AffixMap} (hmap : map.Holds P) (target : String)
    {f : Option (List AffixSlot) → List AffixSlot}
    (hf : ∀ slots : Option (List AffixSlot),
      (∀ slot ∈ slots.getD [], ∀ rule ∈ slot.rules, P slot.kind rule) →
        ∀ slot ∈ f slots, ∀ rule ∈ slot.rules, P slot.kind rule) :
    AffixMap.Holds P (map.alter target f) := by
  intro slots hslots
  rcases Dictionary.mem_values_alter hslots with hold | rfl | ⟨old, hold, rfl⟩
  · exact hmap slots hold
  · exact hf none fun _ h ↦ absurd h List.not_mem_nil
  · exact hf (some old) (hmap old hold)

theorem holds_addBucket {o : Orthography} {targets : List String} {tables : GrammarTables}
    (htables : tables.affixMap.Holds P) {entry : Bucket × List DeclensionRule}
    (hentry : Bucket.Holds P entry) :
    (tables.addBucket o targets entry.1 entry.2).affixMap.Holds P := by
  rw [addBucket]
  split
  · exact htables
  · refine List.foldlRecOn (motive := AffixMap.Holds P) _ _ htables fun map hmap target _ ↦ ?_
    refine holds_alter hmap target fun slots hslots slot hslot ↦ ?_
    rcases List.mem_append.1 hslot with hslot | hslot
    · exact hslots slot hslot
    · rw [List.mem_singleton.1 hslot]
      exact hentry .back

theorem holds_flush {o : Orthography} {nounTags : List String} {s : TableState}
    {tables : GrammarTables} (htables : tables.affixMap.Holds P)
    (hfiled : ∀ entry ∈ s.filed, Bucket.Holds P entry) :
    (tables.flush o nounTags s).affixMap.Holds P := by
  rw [flush]
  split
  · exact htables
  · refine List.foldlRecOn (motive := fun t : GrammarTables ↦ t.affixMap.Holds P) _ _ ?_
      fun t ht entry hentry ↦ holds_addBucket ht (hfiled entry hentry)
    exact List.foldlRecOn (motive := AffixMap.Holds P) _ _ htables
      fun map hmap target _ ↦ holds_alter hmap target fun _ h ↦ h

end GrammarTables

/-! ## The walk -/

/-- What holds of the rules wherever they are, filed or in slots, and of the labels that the rules
to come take their names from. -/
structure GrammarWalk.Holds (P : AffixKind → DeclensionRule → Prop) (w : GrammarWalk) : Prop where
  /-- The labels are proper. -/
  labels : w.state.labels.AreProper
  /-- The rules of the table in hand are good. -/
  filed : ∀ entry ∈ w.state.filed, Bucket.Holds P entry
  /-- The rules of the tables before it are good. -/
  slots : w.tables.affixMap.Holds P

namespace GrammarWalk

variable {o : Orthography} {nounTags : List String} {w w' : GrammarWalk}

theorem holds_start : start.Holds P where
  labels := Labels.areProper_empty
  filed := fun _ h ↦ absurd h List.not_mem_nil
  slots := GrammarTables.holds_empty

theorem Holds.finishTable (hw : w.Holds P) : (w.finishTable o nounTags).Holds P where
  labels := Labels.areProper_empty
  filed := fun _ h ↦ absurd h List.not_mem_nil
  slots := GrammarTables.holds_flush hw.slots hw.filed

theorem Holds.readCell (hP : o.HoldsOfCells P) (hw : w.Holds P) {line : String}
    {path content : List Char} (h : w.readCell o line path content = .ok w') : w'.Holds P := by
  obtain ⟨declension, hdeclension, ⟨kind, affix, -, hcell, rfl⟩ | ⟨_, _, -, -, rfl⟩ | ⟨-, rfl⟩⟩ :=
    of_readCell h
  · have hrule := hP declension _ kind affix (hw.labels.isProper_of_resolve hdeclension) hcell
    have hlabels : (w.state.addRule kind ⟨declension, affix⟩).labels = w.state.labels := by
      cases kind <;> rfl
    exact ⟨hlabels ▸ hw.labels, TableState.holds_addRule hrule hw.filed, hw.slots⟩
  · exact ⟨hw.labels, hw.filed, hw.slots⟩
  · exact hw

theorem Holds.step (hP : o.HoldsOfCells P) (hw : w.Holds P) {raw : String}
    (h : w.step o nounTags raw = .ok w') : w'.Holds P := by
  have hfinish : (w.finishTable o nounTags).Holds P := hw.finishTable
  rw [GrammarWalk.step] at h
  split at h
  · cases h
    exact ⟨hfinish.labels, hfinish.filed, hfinish.slots⟩
  · cases h
    exact ⟨hw.labels.addAll _, hw.filed, hw.slots⟩
  · cases h
    have hnext : (if w.state.filed.isEmpty then w else w.finishTable o nounTags).Holds P := by
      split
      · exact hw
      · exact hfinish
    refine ⟨?_, hnext.filed, hnext.slots⟩
    show Labels.AreProper (if _ then _ else _)
    split
    · exact hnext.labels.addPersons
    · exact hnext.labels
  · exact hw.readCell hP h
  · cases h
    exact hw

theorem Holds.walk (hP : o.HoldsOfCells P) (hw : w.Holds P) {lines : List String}
    (h : w.walk o nounTags lines = .ok w') : w'.Holds P :=
  foldlM_keeps (fun _ _ _ hw h ↦ hw.step hP h) hw h

end GrammarWalk

/-- **What holds of the rules that cells compile to holds of the rules of all slots.** -/
theorem GrammarTables.holdsOfSlots_compile {o : Orthography} (hP : o.HoldsOfCells P)
    {partsOfSpeech : StringSet} {lines : List String} {tables : GrammarTables}
    (h : GrammarTables.compile o partsOfSpeech lines = .ok tables) : tables.affixMap.Holds P := by
  rw [GrammarTables.compile, bind_eq_ok] at h
  obtain ⟨w, hw, h⟩ := h
  rw [← pure_eq_ok.1 h]
  have hholds : w.Holds P := GrammarWalk.holds_start.walk hP hw
  exact GrammarTables.holds_flush hholds.slots hholds.filed

/-- The rules of all slots have proper names. -/
theorem GrammarTables.isProper_compile {o : Orthography} {partsOfSpeech : StringSet}
    {lines : List String} {tables : GrammarTables}
    (h : GrammarTables.compile o partsOfSpeech lines = .ok tables) :
    tables.affixMap.Holds fun _ rule ↦ Labels.IsProper rule.declension :=
  holdsOfSlots_compile (fun _ _ _ _ hdeclension _ _ ↦ hdeclension) h

end Glossopoeia
