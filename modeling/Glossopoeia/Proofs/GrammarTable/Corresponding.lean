import Glossopoeia.Proofs.GrammarTable.Items
import Glossopoeia.Proofs.Text.Cuts

/-!
# Grammars with corresponding rules

Two grammars that agree line by line, but for cells that hold other rules, define the same slots
with other rules in them.  What has to hold of the rules is any relation `R`: if cells at one place
hold rules of one kind that are related by `R`, so are the rules that stand at one place of the two
affix maps (`GrammarTables.together_compile`).  If one of the grammars cannot be compiled, the other
cannot either.

The walks over the two grammars have the same table in hand, but for the rules that are filed in it,
and each line keeps it so.  Entries are left out: words may be spelled as rules are, and a particle
is told by its rule.
-/

set_option autoImplicit false

namespace Glossopoeia

open Outcome Text

/-! ## What corresponds -/

/-- The two make the same form, by related affixes. -/
structure DeclensionRule.Corresponds (R : AffixRule → AffixRule → Prop)
    (rule rule' : DeclensionRule) : Prop where
  /-- The name of the form. -/
  declension : rule.declension = rule'.declension
  /-- The affixes. -/
  affix : R rule.affix rule'.affix

/-- The two buckets are one, with corresponding rules in it. -/
structure Bucket.Corresponds (R : AffixRule → AffixRule → Prop)
    (entry entry' : Bucket × List DeclensionRule) : Prop where
  /-- The bucket. -/
  bucket : entry.1 = entry'.1
  /-- The rules. -/
  rules : List.Forall₂ (DeclensionRule.Corresponds R) entry.2 entry'.2

/-- The two slots are of one kind and offer corresponding rules. -/
structure AffixSlot.Corresponds (R : AffixRule → AffixRule → Prop) (slot slot' : AffixSlot) :
    Prop where
  /-- The kind. -/
  kind : slot.kind = slot'.kind
  /-- The rules. -/
  rules : List.Forall₂ (DeclensionRule.Corresponds R) slot.rules slot'.rules

/-- Each part of speech has corresponding slots in the two maps. -/
def AffixMap.Corresponds (R : AffixRule → AffixRule → Prop) (map map' : AffixMap) : Prop :=
  ∀ pos, List.Forall₂ (AffixSlot.Corresponds R) (map.slotsOf pos) (map'.slotsOf pos)

variable {R : AffixRule → AffixRule → Prop}

/-! ## The table in hand -/

/-- The two tables are one, with corresponding rules in it. -/
def TableState.Corresponds (R : AffixRule → AffixRule → Prop) (s s' : TableState) : Prop :=
  ∃ filed, s' = { s with filed := filed } ∧
    List.Forall₂ (Bucket.Corresponds R) s.filed filed

namespace TableState

variable {rule rule' : DeclensionRule} {filed filed' : List (Bucket × List DeclensionRule)}
  {s s' : TableState}

theorem corresponds_fileUnder (bucket : Bucket) (hrule : rule.Corresponds R rule')
    (hfiled : List.Forall₂ (Bucket.Corresponds R) filed filed') :
    List.Forall₂ (Bucket.Corresponds R) (fileUnder bucket rule filed)
      (fileUnder bucket rule' filed') := by
  induction hfiled with
  | nil => exact .cons ⟨rfl, .cons hrule .nil⟩ .nil
  | @cons entry entry' rest rest' hentry hrest ih =>
    obtain ⟨b, rules⟩ := entry
    obtain ⟨b', rules'⟩ := entry'
    obtain ⟨rfl : b = b', hrules⟩ := hentry
    rw [fileUnder, fileUnder]
    split
    · exact .cons ⟨rfl, List.rel_append hrules (.cons hrule .nil)⟩ hrest
    · exact .cons ⟨rfl, hrules⟩ ih

theorem corresponds_settle (kind : AffixKind)
    (hfiled : List.Forall₂ (Bucket.Corresponds R) filed filed') :
    List.Forall₂ (Bucket.Corresponds R) (settle kind filed) (settle kind filed') := by
  induction hfiled with
  | nil => exact .nil
  | @cons entry entry' rest rest' hentry hrest ih =>
    obtain ⟨b, rules⟩ := entry
    obtain ⟨b', rules'⟩ := entry'
    obtain ⟨rfl : b = b', hrules⟩ := hentry
    cases b with
    | none => exact .cons ⟨rfl, hrules⟩ hrest
    | some k => exact .cons ⟨rfl, hrules⟩ ih

theorem Corresponds.addRule (h : s.Corresponds R s') (kind : Option AffixKind)
    (hrule : rule.Corresponds R rule') :
    (s.addRule kind rule).Corresponds R (s'.addRule kind rule') := by
  obtain ⟨filed, rfl, hfiled⟩ := h
  cases kind with
  | none => exact ⟨_, rfl, corresponds_fileUnder _ hrule hfiled⟩
  | some kind =>
    refine ⟨_, rfl, corresponds_fileUnder _ hrule ?_⟩
    dsimp only
    split
    · exact corresponds_settle kind hfiled
    · exact hfiled

theorem corresponds_slotOf {entry entry' : Bucket × List DeclensionRule}
    (h : Bucket.Corresponds R entry entry') :
    List.Forall₂ (AffixSlot.Corresponds R) (slotOf entry) (slotOf entry') := by
  rw [slotOf, slotOf, h.bucket]
  split
  · exact .nil
  · exact .cons ⟨rfl, h.rules⟩ .nil

theorem Corresponds.slots (h : s.Corresponds R s') :
    List.Forall₂ (AffixSlot.Corresponds R) s.slots s'.slots := by
  obtain ⟨filed, rfl, hfiled⟩ := h
  exact List.rel_flatMap hfiled fun _ _ ↦ corresponds_slotOf

end TableState

/-! ## Cells -/

/-- The two cells hold related rules of one kind, or none of them holds a rule; and both or none of
them may hold a word. -/
structure GrammarLine.CellsCorrespond (o : Orthography) (R : AffixRule → AffixRule → Prop)
    (content content' : List Char) : Prop where
  /-- The rules. -/
  rules : Together (fun p p' ↦ p.1 = p'.1 ∧ R p.2 p'.2)
    (o.compileCell (GrammarWalk.ruleText content)) (o.compileCell (GrammarWalk.ruleText content'))
  /-- The words. -/
  words : '=' ∈ content ↔ '=' ∈ content'

/-- The two lines say the same, or they are cells at the same place that correspond. -/
inductive GrammarLine.Corresponds (o : Orthography) (R : AffixRule → AffixRule → Prop) :
    GrammarLine → GrammarLine → Prop
  /-- They say the same. -/
  | same (line : GrammarLine) : Corresponds o R line line
  /-- They are cells at the same place. -/
  | cell (path : List Char) {content content' : List Char}
      (h : CellsCorrespond o R content content') :
      Corresponds o R (.cell path content) (.cell path content')

/-! ## The walk -/

/-- The two walks have the same table in hand, but for its rules, and corresponding slots behind
them. -/
structure GrammarWalk.Corresponds (R : AffixRule → AffixRule → Prop) (w w' : GrammarWalk) :
    Prop where
  /-- The table in hand. -/
  state : w.state.Corresponds R w'.state
  /-- The tables before it. -/
  slots : w.tables.affixMap.Corresponds R w'.tables.affixMap

theorem GrammarTables.corresponds_flush {o : Orthography} {nounTags : List String}
    (hnoun : nounTags.Nodup) {tables tables' : GrammarTables} {s s' : TableState}
    (htables : tables.affixMap.Corresponds R tables'.affixMap) (h : s.Corresponds R s') :
    (tables.flush o nounTags s).affixMap.Corresponds R
      (tables'.flush o nounTags s').affixMap := by
  intro pos
  have hslots := h.slots
  obtain ⟨filed, rfl, hfiled⟩ := h
  rw [slotsOf_flush o hnoun, slotsOf_flush o hnoun]
  refine List.rel_append (htables pos) ?_
  split
  · exact hslots
  · exact .nil

namespace GrammarWalk

variable {o : Orthography} {nounTags : List String} {w w' : GrammarWalk}

theorem corresponds_start : start.Corresponds R start := ⟨⟨[], rfl, .nil⟩, fun _ ↦ .nil⟩

theorem Corresponds.finishTable (hnoun : nounTags.Nodup) (h : w.Corresponds R w') :
    (w.finishTable o nounTags).Corresponds R (w'.finishTable o nounTags) where
  state := by
    obtain ⟨filed, heq, -⟩ := h.state
    exact ⟨[], by rw [GrammarWalk.finishTable, heq]; rfl, .nil⟩
  slots := GrammarTables.corresponds_flush hnoun h.slots h.state

/-- Whether a place has a name does not depend on the line. -/
theorem together_resolve (labels : Labels) (path : List Char) (line line' : String) :
    Together Eq (labels.resolve path line) (labels.resolve path line') := by
  rw [Labels.resolve, Labels.resolve]
  split
  · exact .ok rfl
  · exact .error _ _

theorem Corresponds.readCell (h : w.Corresponds R w') (line line' : String) (path : List Char)
    {content content' : List Char} (hcells : GrammarLine.CellsCorrespond o R content content') :
    Together (Corresponds R) (w.readCell o line path content)
      (w'.readCell o line' path content') := by
  have hstate : w'.state.labels = w.state.labels ∧ w'.state.tableType = w.state.tableType ∧
      w'.state.partOfSpeech = w.state.partOfSpeech := by
    obtain ⟨filed, heq, -⟩ := h.state
    rw [heq]
    exact ⟨rfl, rfl, rfl⟩
  rw [GrammarWalk.readCell, GrammarWalk.readCell, hstate.1, hstate.2.1]
  refine (together_resolve _ path line line').bind ?_
  rintro declension _ rfl
  split
  · refine hcells.rules.bind ?_
    rintro ⟨kind, affix⟩ ⟨kind', affix'⟩ ⟨rfl : kind = kind', haffix⟩
    exact .ok ⟨h.state.addRule kind ⟨rfl, haffix⟩, h.slots⟩
  · split
    · by_cases hword : '=' ∈ content
      · obtain ⟨_, hcut⟩ := exists_cut_eq_some hword
        obtain ⟨_, hcut'⟩ := exists_cut_eq_some (hcells.words.1 hword)
        rw [hcut, hcut', hstate.2.2]
        dsimp only
        split
        · exact .error _ _
        · exact .ok ⟨h.state, h.slots⟩
      · rw [cut_eq_none hword, cut_eq_none (mt hcells.words.2 hword)]
        exact .error _ _
    · exact .ok h

theorem Corresponds.step (hnoun : nounTags.Nodup)
    (hcells : ∀ content, GrammarLine.CellsCorrespond o R content content)
    (h : w.Corresponds R w') {raw raw' : String}
    (hline : GrammarLine.Corresponds o R (GrammarLine.read (trim raw.toList))
      (GrammarLine.read (trim raw'.toList))) :
    Together (Corresponds R) (w.step o nounTags raw) (w'.step o nounTags raw') := by
  have hfinish : (w.finishTable o nounTags).Corresponds R (w'.finishTable o nounTags) :=
    h.finishTable hnoun
  rw [GrammarWalk.step, GrammarWalk.step]
  dsimp only
  generalize GrammarLine.read (trim raw.toList) = line at hline ⊢
  generalize GrammarLine.read (trim raw'.toList) = line' at hline ⊢
  cases hline with
  | cell path hcell => exact h.readCell _ _ path hcell
  | same =>
    cases line with
    | tableType type =>
      obtain ⟨filed, heq, hfiled⟩ := hfinish.state
      exact .ok ⟨⟨filed, by rw [heq], hfiled⟩, hfinish.slots⟩
    | labels list =>
      obtain ⟨filed, heq, hfiled⟩ := h.state
      exact .ok ⟨⟨filed, by rw [heq], hfiled⟩, h.slots⟩
    | partOfSpeech tag =>
      have hnext : GrammarWalk.Corresponds R
          (if w.state.filed.isEmpty then w else w.finishTable o nounTags)
          (if w'.state.filed.isEmpty then w' else w'.finishTable o nounTags) := by
        obtain ⟨filed, heq, hfiled⟩ := h.state
        have hempty : w'.state.filed.isEmpty = w.state.filed.isEmpty := by
          rw [heq]
          dsimp only
          generalize w.state.filed = own at hfiled ⊢
          cases hfiled <;> rfl
        rw [hempty]
        split
        · exact h
        · exact hfinish
      obtain ⟨filed, heq, hfiled⟩ := hnext.state
      exact .ok ⟨⟨filed, by rw [heq], hfiled⟩, hnext.slots⟩
    | cell path content => exact h.readCell _ _ path (hcells content)
    | other => exact .ok h

end GrammarWalk

/-- **Grammars with corresponding rules define corresponding slots**, or neither of them can be
compiled. -/
theorem GrammarTables.together_compile {o : Orthography} (partsOfSpeech : StringSet)
    (hcells : ∀ content, GrammarLine.CellsCorrespond o R content content)
    {lines lines' : List String}
    (hlines : List.Forall₂ (fun raw raw' ↦ GrammarLine.Corresponds o R
      (GrammarLine.read (trim raw.toList)) (GrammarLine.read (trim raw'.toList))) lines lines') :
    Together (fun tables tables' ↦ tables.affixMap.Corresponds R tables'.affixMap)
      (compile o partsOfSpeech lines) (compile o partsOfSpeech lines') := by
  have hnoun := nodup_nounTags partsOfSpeech
  rw [compile, compile]
  refine (Together.foldlM (fun _ _ _ _ h hline ↦ h.step hnoun hcells hline) hlines
    GrammarWalk.corresponds_start).bind fun w w' h ↦ ?_
  exact .ok (corresponds_flush hnoun h.slots h.state)

end Glossopoeia
