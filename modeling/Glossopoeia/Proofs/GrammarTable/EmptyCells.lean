import Glossopoeia.Proofs.GrammarTable.CellLine
import Glossopoeia.Proofs.GrammarTable.Filing

/-!
# Cells without a rule

A cell with a lone hyphen is filed like any other: the form is named, and made without an affix.  A
cell in which nothing at all is written behind the tilde should say the same, but it is never read.
Lines are trimmed before it is decided what they say, and behind the tilde of a cell there has to be
a blank, so a line that ends with its tilde is no cell (`EmptiesCell.read_short`).

Hence a grammar in which the hyphens of some cells are left out is compiled as it is without these
cells (`GrammarTables.compile_map_result`).  In a table this makes a difference exactly if one of
the cells is filed as something else than a particle: it is then missing in the slot of its kind.
For the kinds of the other cells do not depend on a cell that has none
(`AffixCell.assignments_remaining`).
-/

set_option autoImplicit false

namespace Glossopoeia

open Outcome Text

/-! ## Lines -/

/-- The cell in the first text holds a lone hyphen, which is left out in the second. -/
def EmptiesCell (line short : String) : Prop :=
  ∃ front gap after after', GrammarLine.IsCellFront front ∧ (allBlank gap ∧ gap ≠ []) ∧
    allBlank after ∧ allBlank after' ∧ line.toList = front ++ '~' :: (gap ++ '-' :: after) ∧
    short.toList = front ++ '~' :: after'

section

variable {front : List Char} {line short : String}

theorem GrammarLine.IsCellFront.trimLeft (h : IsCellFront front) :
    IsCellFront (Text.trimLeft front) := by
  obtain ⟨gap, path, gap', ⟨hgap, hgap'⟩, ⟨hne, hpath⟩, rfl⟩ := h
  obtain ⟨p, path, rfl⟩ := List.exists_cons_of_ne_nil hne
  refine ⟨[], p :: path, gap', ⟨rfl, hgap'⟩, ⟨hne, hpath⟩, ?_⟩
  rw [List.append_assoc, trimLeft_append hgap]
  exact trimLeft_cons (isBlank_eq_false_of_isPathChar (hpath p (List.mem_cons_self ..))) _

/-- A line that ends with the tilde of a cell says nothing. -/
theorem GrammarLine.read_append_tilde (h : IsCellFront front) : read (front ++ ['~']) = .other := by
  have hcell : isCell (front ++ ['~'] ++ [' ']) := by
    rw [List.append_assoc]
    exact isCell_append_cons h ⟨' ', [], by decide, by decide, rfl⟩
  rw [read_of_isCell_append hcell, if_neg]
  intro hshort
  obtain ⟨front', content, hfront', ⟨c, rest, -, -, rfl⟩, heq⟩ := exists_of_isCell hshort
  have hcut := congrArg (cut '~') heq
  rw [cut_append_cons h.notMem, cut_append_cons hfront'.notMem] at hcut
  cases hcut

theorem EmptiesCell.read_short (h : EmptiesCell line short) :
    GrammarLine.read (trim short.toList) = .other := by
  obtain ⟨front, _, _, after', hfront, -, -, hafter', -, hshort⟩ := h
  rw [hshort, trim_append_cons _ _ (by decide), trimRight_of_allBlank hafter']
  exact GrammarLine.read_append_tilde hfront.trimLeft

theorem EmptiesCell.read_line (h : EmptiesCell line short) : ∃ path content,
    GrammarLine.read (trim line.toList) = .cell path content ∧ '=' ∉ content ∧
      GrammarWalk.ruleText content = ['-'] := by
  obtain ⟨front, gap, after, _, hfront, ⟨hgap, hne⟩, hafter, -, hline, -⟩ := h
  refine ⟨trim (trimLeft front), gap ++ ['-'], GrammarLine.read_eq_cell_iff.2
    ⟨_, hfront.trimLeft, ?_, ?_, rfl⟩, ?_, ?_⟩
  · obtain ⟨b, gap, rfl⟩ := List.exists_cons_of_ne_nil hne
    obtain ⟨hb, hmore⟩ := List.forall_mem_cons.1 (allBlank_iff.1 hgap)
    refine ⟨b, gap ++ ['-'], hb, ?_, rfl⟩
    rw [trimLeft_append (allBlank_iff.2 hmore)]
    decide
  · rw [hline, trim_append_cons _ _ (by decide), trimRight_append_cons _ _ (by decide),
      trimRight_of_allBlank hafter]
  · simp [notMem_of_allBlank hgap (by decide : isBlank '=' = false)]
  · have hrule : IsRuleText ['-'] := by constructor <;> decide
    simpa using GrammarWalk.ruleText_append hrule (.alone hgap (rfl : allBlank []))

end

/-- A line of a grammar, perhaps a cell in which the lone hyphen is left out. -/
structure CellEdit where
  /-- The line. -/
  line : String
  /-- The line without the hyphen, if that is left out. -/
  short : Option String
  /-- Nothing else is left out. -/
  empties : ∀ text ∈ short, EmptiesCell line text

namespace CellEdit

/-- The line as it is after the edit. -/
def result (edit : CellEdit) : String := edit.short.getD edit.line

/-- A line that is left as it is. -/
def unchanged (line : String) : CellEdit := ⟨line, none, fun _ h ↦ nomatch h⟩

/-- The lines that are left as they are. -/
def kept (edits : List CellEdit) : List String := (edits.filter (·.short.isNone)).map line

end CellEdit

/-! ## Cells of a table, some of which are left out -/

namespace AffixCell

/-- The cells that are not marked. -/
def remaining (marked : List (AffixCell × Bool)) : List AffixCell :=
  (marked.filter (!·.2)).map Prod.fst

theorem remaining_append (marked more : List (AffixCell × Bool)) :
    remaining (marked ++ more) = remaining marked ++ remaining more := by
  rw [remaining, List.filter_append, List.map_append]
  rfl

theorem remaining_map (cells : List AffixCell) (mark : Bool) :
    remaining (cells.map (·, mark)) = if mark then [] else cells := by
  cases mark <;> simp [remaining, List.filter_map, Function.comp_def]

/-- The kinds that the cells are filed under, and which of the cells are marked. -/
def filedMarks (marked : List (AffixCell × Bool)) : List (AffixKind × Bool) :=
  ((assignments (marked.map Prod.fst)).map Prod.fst).zip (marked.map Prod.snd)

variable {marked : List (AffixCell × Bool)}

theorem findSome?_kind_remaining (h : ∀ item ∈ marked, item.2 = true → item.1.kind = none) :
    (remaining marked).findSome? kind = (marked.map Prod.fst).findSome? kind := by
  induction marked with
  | nil => rfl
  | cons item rest ih =>
    obtain ⟨hitem, hrest⟩ := List.forall_mem_cons.1 h
    obtain ⟨cell, mark⟩ := item
    have hrest := ih hrest
    cases mark with
    | false =>
      show ((cell :: remaining rest).findSome? kind) = _
      rw [List.map_cons, List.findSome?_cons, List.findSome?_cons, hrest]
    | true =>
      show ((remaining rest).findSome? kind) = _
      rw [List.map_cons, List.findSome?_cons, show cell.kind = none from hitem rfl, hrest]

/-- A cell without a kind of its own gives none to the others. -/
theorem kindsFrom_remaining (h : ∀ item ∈ marked, item.2 = true → item.1.kind = none)
    {before before' : List AffixCell} (hbefore : before'.findSome? kind = before.findSome? kind) :
    kindsFrom before' (remaining marked)
      = (((kindsFrom before (marked.map Prod.fst)).zip (marked.map Prod.snd)).filter (!·.2)).map
          Prod.fst := by
  induction marked generalizing before before' with
  | nil => rfl
  | cons item rest ih =>
    obtain ⟨hitem, hrest⟩ := List.forall_mem_cons.1 h
    obtain ⟨cell, mark⟩ := item
    cases mark with
    | false =>
      have hafter := findSome?_kind_remaining hrest
      have hnext : (cell :: before').findSome? kind = (cell :: before).findSome? kind := by
        rw [List.findSome?_cons, List.findSome?_cons, hbefore]
      show kindsFrom before' (cell :: remaining rest) = _
      rw [kindsFrom, kindAmong?, hbefore, hafter, ih hrest hnext]
      rfl
    | true =>
      have hnone : cell.kind = none := hitem rfl
      have hnext : before'.findSome? kind = (cell :: before).findSome? kind := by
        rw [List.findSome?_cons, hnone, hbefore]
      exact ih hrest hnext

/-- **Cells without a kind can be left out**: the others are filed under the same kinds. -/
theorem assignments_remaining (h : ∀ item ∈ marked, item.2 = true → item.1.kind = none) :
    assignments (remaining marked)
      = (((assignments (marked.map Prod.fst)).zip (marked.map Prod.snd)).filter (!·.2)).map
          Prod.fst := by
  rw [assignments, assignments, kindsFrom_remaining h rfl, List.zip_map_left, List.filter_map,
    List.map_map, List.map_map]
  rfl

/-- The slots of cells are the groups of those that are filed as something else than particles. -/
theorem slots_eq_groupsOf (cells : List AffixCell) :
    slots cells = (groupsOf ((assignments cells).filter (·.1 ≠ .particle))).map
      fun group ↦ ⟨group.1, group.2⟩ := by
  rw [groupsOf_filter (· ≠ AffixKind.particle), groupsOf, List.filter_map, List.map_map]
  rfl

theorem length_slots (cells : List AffixCell) :
    ((slots cells).flatMap AffixSlot.rules).length
      = ((assignments cells).filter (·.1 ≠ .particle)).length := by
  rw [slots_eq_groupsOf, List.flatMap_map, (perm_flatMap_groupsOf _).length_eq, List.length_map]

theorem length_assignments (cells : List AffixCell) :
    (assignments cells).length = cells.length := by
  simpa using congrArg List.length (map_rule_assignments cells)

/-- There is a mark for each cell that is filed. -/
theorem length_assignments_fst (marked : List (AffixCell × Bool)) :
    (assignments (marked.map Prod.fst)).length = (marked.map Prod.snd).length := by
  rw [length_assignments, List.length_map, List.length_map]

/-- **The slots lack the marked cells** that are filed as something else than particles. -/
theorem slots_remaining_eq_iff (h : ∀ item ∈ marked, item.2 = true → item.1.kind = none) :
    slots (remaining marked) = slots (marked.map Prod.fst) ↔
      ∀ item ∈ filedMarks marked, item.2 = true → item.1 = .particle := by
  let items := (assignments (marked.map Prod.fst)).zip (marked.map Prod.snd)
  have hall : (assignments (marked.map Prod.fst)).filter (·.1 ≠ .particle)
      = (items.filter (·.1.1 ≠ .particle)).map Prod.fst := by
    rw [← List.map_fst_zip (length_assignments_fst marked).le, List.filter_map]
    rfl
  have hremaining : (assignments (remaining marked)).filter (·.1 ≠ .particle)
      = ((items.filter (·.1.1 ≠ .particle)).filter (!·.2)).map Prod.fst := by
    rw [assignments_remaining h, List.filter_map, List.filter_comm]
    rfl
  have hmarks : (∀ item ∈ filedMarks marked, item.2 = true → item.1 = .particle) ↔
      ∀ item ∈ items.filter (·.1.1 ≠ .particle), (!item.2) = true := by
    rw [filedMarks, List.zip_map_left, List.forall_mem_map]
    simp only [List.mem_filter, and_imp, decide_eq_true_eq, Bool.not_eq_true', Prod.map_fst,
      Prod.map_snd, id]
    refine forall₂_congr fun item _ ↦ ?_
    cases item.2 <;> simp
  rw [hmarks]
  constructor
  · intro heq
    have hcount := congrArg (fun slots ↦ (slots.flatMap AffixSlot.rules).length) heq
    rw [length_slots, length_slots, hall, hremaining, List.length_map, List.length_map] at hcount
    exact List.length_filter_eq_length_iff.1 hcount
  · intro hnone
    rw [slots_eq_groupsOf, slots_eq_groupsOf, hall, hremaining, List.filter_eq_self.2 hnone]

/-- The slots lack nothing of the particles: a particle without a rule is no entry. -/
theorem particles_remaining (o : Orthography)
    (h : ∀ item ∈ marked, item.2 = true → item.1.kind = none ∧ item.1.rule.affix = .empty) :
    (rulesOf .particle (remaining marked)).flatMap (GrammarTables.particleEntries o)
      = (rulesOf .particle (marked.map Prod.fst)).flatMap (GrammarTables.particleEntries o) := by
  have hrules : ((assignments (marked.map Prod.fst)).zip (marked.map Prod.snd)).map
      (Prod.map Prod.snd id) = marked.map fun item ↦ (item.1.rule, item.2) := by
    rw [← List.zip_map_left, map_rule_assignments, List.map_map, List.zip_map']
    rfl
  have hempty : ∀ item ∈ (assignments (marked.map Prod.fst)).zip (marked.map Prod.snd),
      item.2 = true → GrammarTables.particleEntries o item.1.2 = [] := by
    intro item hitem hmark
    obtain ⟨cell, hcell, heq⟩ := List.mem_map.1 (hrules ▸ List.mem_map_of_mem hitem)
    obtain ⟨hrule, hsame⟩ := Prod.mk.inj heq
    rw [GrammarTables.particleEntries.eq_def, ← show cell.1.rule = item.1.2 from hrule,
      (h cell hcell (hsame.trans hmark)).2]
  rw [rulesOf, rulesOf, assignments_remaining fun item hitem hmark ↦ (h item hitem hmark).1,
    flatMap_valuesOf_filter _ hempty, List.map_fst_zip (length_assignments_fst marked).le]

end AffixCell

/-! ## The walk -/

namespace GrammarWalk

variable {o : Orthography} {tags : List String} {w w' v : GrammarWalk} {line short : String}

theorem step_short (h : EmptiesCell line short) (o : Orthography) (tags : List String)
    (w : GrammarWalk) : w.step o tags short = .ok w := by
  rw [step, h.read_short]

/-- Cells without a rule are passed over. -/
theorem walk_result (o : Orthography) (tags : List String) (w : GrammarWalk)
    (edits : List CellEdit) :
    w.walk o tags (edits.map CellEdit.result) = w.walk o tags (CellEdit.kept edits) := by
  induction edits generalizing w with
  | nil => rfl
  | cons edit rest ih =>
    obtain ⟨line, short, hempties⟩ := edit
    cases short with
    | none =>
      show List.foldlM (step o tags) w (line :: rest.map CellEdit.result)
        = List.foldlM (step o tags) w (line :: CellEdit.kept rest)
      rw [List.foldlM_cons, List.foldlM_cons]
      exact congrArg _ (funext ih)
    | some short =>
      show List.foldlM (step o tags) w (short :: rest.map CellEdit.result) = _
      rw [List.foldlM_cons, step_short (hempties short rfl)]
      exact ih w

/-- The cells that lines fill in a table of affixes, marked if their hyphens are left out. -/
def markedCells (o : Orthography) (tags : List String) (w : GrammarWalk) :
    List CellEdit → List (AffixCell × Bool)
  | [] => []
  | edit :: rest =>
    (w.affixCell? o edit.line).toList.map (·, edit.short.isSome) ++
      match w.step o tags edit.line with
      | .ok w' => w'.markedCells o tags rest
      | .error _ => []

theorem ReadsTable.map_fst_markedCells {edits : List CellEdit} {cells : List AffixCell}
    (h : ReadsTable o tags w (edits.map CellEdit.line) cells w') :
    (w.markedCells o tags edits).map Prod.fst = cells := by
  generalize hlines : edits.map CellEdit.line = lines at h
  induction h generalizing edits with
  | nil =>
    rw [List.map_eq_nil_iff.1 hlines]
    rfl
  | cons hends hstep _ ih =>
    obtain ⟨edit, rest, rfl, rfl, hrest⟩ := List.map_eq_cons_iff.1 hlines
    rw [markedCells, hstep, List.map_append, ih hrest, List.map_map]
    simp [Function.comp_def]

/-- The cell with a lone hyphen has no kind and the empty rule. -/
theorem of_affixCell?_line (h : EmptiesCell line short) {cell : AffixCell}
    (hcell : w.affixCell? o line = some cell) : cell.kind = none ∧ cell.rule.affix = .empty := by
  obtain ⟨path, content, hread, -, hrule⟩ := h.read_line
  have hempty : o.compileCell ['-'] = .ok (none, .empty) := rfl
  rw [affixCell?, hread] at hcell
  dsimp only at hcell
  rw [affixCellAt?, hrule, hempty] at hcell
  split at hcell
  · split at hcell
    · next hcompiled =>
      cases hcompiled
      cases hcell
      exact ⟨rfl, rfl⟩
    · cases hcell
  · cases hcell

theorem of_mem_markedCells {edits : List CellEdit} :
    ∀ item ∈ w.markedCells o tags edits, item.2 = true →
      item.1.kind = none ∧ item.1.rule.affix = .empty := by
  induction edits generalizing w with
  | nil => exact fun _ h ↦ absurd h List.not_mem_nil
  | cons edit rest ih =>
    intro item hitem hmark
    rw [markedCells] at hitem
    rcases List.mem_append.1 hitem with hitem | hitem
    · obtain ⟨cell, hcell, rfl⟩ := List.mem_map.1 hitem
      obtain ⟨short, hshort⟩ := Option.isSome_iff_exists.1 hmark
      exact of_affixCell?_line (edit.empties short hshort) (Option.mem_toList.1 hcell)
    · split at hitem
      · exact ih item hitem hmark
      · exact absurd hitem List.not_mem_nil

/-- The two walks differ in the rules of the table in hand at most, and the first has none if the
second has none. -/
def IsThinner (v w : GrammarWalk) : Prop :=
  ∃ filed current last,
    v = ⟨{ w.state with filed := filed, current := current, last := last }, w.tables⟩ ∧
      (w.state.filed = [] → filed = [])

theorem IsThinner.refl (w : GrammarWalk) : w.IsThinner w := ⟨_, _, _, rfl, id⟩

/-- A rule that is filed in the second walk alone leaves the first one thinner. -/
theorem IsThinner.addRule_right (h : v.IsThinner w) (kind : Option AffixKind)
    (rule : DeclensionRule) : v.IsThinner { w with state := w.state.addRule kind rule } := by
  obtain ⟨filed, current, last, rfl, -⟩ := h
  refine ⟨filed, current, last, ?_, fun hnil ↦ absurd hnil (TableState.filed_addRule_ne_nil _ _ _)⟩
  cases kind <;> rfl

theorem IsThinner.addRule (h : v.IsThinner w) (kind : Option AffixKind) (rule : DeclensionRule) :
    IsThinner { v with state := v.state.addRule kind rule }
      { w with state := w.state.addRule kind rule } := by
  obtain ⟨filed, current, last, rfl, -⟩ := h
  have hne := w.state.filed_addRule_ne_nil kind rule
  cases kind with
  | none => exact ⟨_, _, _, rfl, fun hnil ↦ absurd hnil hne⟩
  | some kind => exact ⟨_, _, _, rfl, fun hnil ↦ absurd hnil hne⟩

/-- A line that does not end the table is read alike, and fills the same cell. -/
theorem IsThinner.alike_step (h : v.IsThinner w) (o : Orthography) (tags : List String)
    {raw : String} (hends : w.endsTable raw = false) :
    v.endsTable raw = false ∧ v.affixCell? o raw = w.affixCell? o raw ∧
      Alike IsThinner (v.step o tags raw) (w.step o tags raw) := by
  have hrule := h.addRule
  obtain ⟨filed, current, last, rfl, hfiled⟩ := h
  refine ⟨?_, rfl, ?_⟩ <;> rw [endsTable] at hends
  · rw [endsTable]
    split at hends
    · cases hends
    · rw [Bool.not_eq_false', List.isEmpty_iff] at hends
      rw [hfiled hends]
      rfl
    · rfl
  · rw [step, step]
    dsimp only
    cases hline : GrammarLine.read (trim raw.toList) with
    | tableType type =>
      rw [hline] at hends
      cases hends
    | labels list => exact .ok ⟨_, _, _, rfl, hfiled⟩
    | partOfSpeech tag =>
      rw [hline, Bool.not_eq_false', List.isEmpty_iff] at hends
      rw [hends, hfiled hends]
      exact .ok ⟨_, _, _, rfl, fun _ ↦ rfl⟩
    | cell path content =>
      exact alike_readCell rfl rfl rfl ⟨_, _, _, rfl, hfiled⟩ hrule fun entry ↦
        ⟨_, _, _, rfl, hfiled⟩
    | other => exact .ok ⟨_, _, _, rfl, hfiled⟩

/-- The walk that passes the cell over stays thinner. -/
theorem IsThinner.step_right (h : v.IsThinner w) (hempties : EmptiesCell line short)
    (hstep : w.step o tags line = .ok w') : v.IsThinner w' := by
  obtain ⟨path, content, hread, hequals, hrule⟩ := hempties.read_line
  rw [step, hread] at hstep
  obtain ⟨declension, -, ⟨kind, affix, -, -, rfl⟩ | ⟨_, _, -, hcut, -⟩ | ⟨-, rfl⟩⟩ :=
    of_readCell hstep
  · exact h.addRule_right kind ⟨declension, affix⟩
  · rw [cut_eq_none hequals] at hcut
    cases hcut
  · exact h

/-- **A table in which hyphens are left out** is read with the other cells, and differs in its rules
at most. -/
theorem ReadsTable.result {edits : List CellEdit} {cells : List AffixCell}
    (h : ReadsTable o tags w (edits.map CellEdit.line) cells w') (hthin : v.IsThinner w) :
    ∃ v', ReadsTable o tags v (edits.map CellEdit.result)
      (AffixCell.remaining (w.markedCells o tags edits)) v' ∧ v'.IsThinner w' := by
  induction edits generalizing v w cells with
  | nil =>
    cases h
    exact ⟨v, .nil v, hthin⟩
  | cons edit rest ih =>
    obtain ⟨line, short, hempties⟩ := edit
    generalize hlines : (CellEdit.mk line short hempties :: rest).map CellEdit.line = lines at h
    cases h with
    | nil => cases hlines
    | @cons _ next _ _ _ cells hends hstep hrest =>
      cases hlines
      rw [markedCells, hstep, AffixCell.remaining_append]
      cases short with
      | none =>
        obtain ⟨hends', hcell, halike⟩ := hthin.alike_step o tags hends
        rw [hstep] at halike
        generalize hstep' : v.step o tags line = outcome at halike
        cases halike with
        | ok hnext =>
          obtain ⟨v', hread, hthin'⟩ := ih hrest hnext
          rw [AffixCell.remaining_map, ← hcell]
          exact ⟨v', .cons hends' hstep' hread, hthin'⟩
      | some short =>
        obtain ⟨v', hread, hthin'⟩ := ih hrest (hthin.step_right (hempties short rfl) hstep)
        have hother := (hempties short rfl).read_short
        have hends' : v.endsTable short = false := by rw [endsTable, hother]
        have hnone : v.affixCell? o short = none := by rw [affixCell?, hother]
        have hcons := ReadsTable.cons hends' (step_short (hempties short rfl) o tags v) hread
        rw [hnone] at hcons
        rw [AffixCell.remaining_map]
        exact ⟨v', hcons, hthin'⟩

end GrammarWalk

/-! ## Grammars -/

namespace GrammarTables

open GrammarWalk

/-- **A cell that nothing is written in is skipped.**  A grammar in which hyphens are left out is
compiled as it is without the cells in question.  A table of it is read with the other cells, which
are filed as they are beside the cells with hyphens: the entries that it makes are the same, and its
slots are the same exactly if all cells in question are particles. -/
theorem compile_map_result (o : Orthography) (partsOfSpeech : StringSet) (edits : List CellEdit) :
    compile o partsOfSpeech (edits.map CellEdit.result)
      = compile o partsOfSpeech (CellEdit.kept edits) ∧
    ∀ w cells w', BeginsTable o (nounTags partsOfSpeech) w →
      ReadsTable o (nounTags partsOfSpeech) w (edits.map CellEdit.line) cells w' →
      ∃ v, ReadsTable o (nounTags partsOfSpeech) w (edits.map CellEdit.result)
          (AffixCell.remaining (w.markedCells o (nounTags partsOfSpeech) edits)) v ∧
        v.IsThinner w' ∧ v.state.particles o = w'.state.particles o ∧
        (v.state.slots = w'.state.slots ↔
          ∀ item ∈ AffixCell.filedMarks (w.markedCells o (nounTags partsOfSpeech) edits),
            item.2 = true → item.1 = .particle) := by
  constructor
  · rw [compile, compile]
    exact congrArg (· >>= _) (walk_result o (nounTags partsOfSpeech) .start edits)
  · intro w cells w' hbegins hreads
    obtain ⟨v, hreads', hthin⟩ := hreads.result (.refl w)
    have hfiles := (hreads.files hbegins.files).1
    have hfiles' := (hreads'.files hbegins.files).1
    rw [List.nil_append, ← hreads.map_fst_markedCells] at hfiles
    rw [List.nil_append] at hfiles'
    refine ⟨v, hreads', hthin, ?_, ?_⟩
    · rw [hfiles.particles, hfiles'.particles]
      exact AffixCell.particles_remaining o of_mem_markedCells
    · rw [hfiles.slots, hfiles'.slots]
      exact AffixCell.slots_remaining_eq_iff fun item hitem hmark ↦
        (of_mem_markedCells item hitem hmark).1

/-- A table whose singular has no affix, which is written with a hyphen or without one. -/
def singularEdits : List CellEdit :=
  ["part-of-speech = v", "cols = Singular/Plural"].map .unchanged ++
    [⟨"S ~ -", some "S ~ ", fun _ h ↦ Option.mem_some.1 h ▸ ⟨['S', ' '], [' '], [], [' '],
      ⟨[], ['S'], [' '], by decide, ⟨by decide, List.forall_mem_singleton.2 rfl⟩, rfl⟩, by decide,
      rfl, rfl, rfl, rfl⟩⟩,
      .unchanged "P ~ -s"]

/-- Without the hyphen the singular is not among the forms. -/
theorem compile_map_result_singularEdits :
    ∃ w cells w' v, BeginsTable plainOrthography (nounTags (.ofList ["v"])) w ∧
      ReadsTable plainOrthography (nounTags (.ofList ["v"])) w (singularEdits.map CellEdit.line)
        cells w' ∧
      ReadsTable plainOrthography (nounTags (.ofList ["v"])) w (singularEdits.map CellEdit.result)
        [⟨some .back, "Plural", .plain "s" "s"⟩] v ∧
      cells = [⟨none, "Singular", .empty⟩, ⟨some .back, "Plural", .plain "s" "s"⟩] ∧
      v.state.slots ≠ w'.state.slots := by
  have hbegins : BeginsTable plainOrthography (nounTags (.ofList ["v"]))
      ⟨{ TableState.start with tableType := "affix" }, .empty⟩ :=
    .next (show endsTable .start "TABLE TYPE = affix" = true by decide) rfl
  obtain ⟨cells, w', hreads, hcells⟩ : ∃ cells w', ReadsTable plainOrthography
      (nounTags (.ofList ["v"])) ⟨{ TableState.start with tableType := "affix" }, .empty⟩
      (singularEdits.map CellEdit.line) cells w' ∧
      cells = [⟨none, "Singular", .empty⟩, ⟨some .back, "Plural", .plain "s" "s"⟩] :=
    ⟨_, _, .cons rfl rfl <| .cons rfl rfl <| .cons rfl rfl <| .cons rfl rfl <| .nil _,
      by decide⟩
  have hmarked : markedCells plainOrthography (nounTags (.ofList ["v"]))
      ⟨{ TableState.start with tableType := "affix" }, .empty⟩ singularEdits
      = [(⟨none, "Singular", .empty⟩, true), (⟨some .back, "Plural", .plain "s" "s"⟩, false)] := by
    decide
  obtain ⟨v, hreads', -, -, hslots⟩ :=
    (compile_map_result plainOrthography (.ofList ["v"]) singularEdits).2 _ _ _ hbegins hreads
  rw [hmarked] at hreads' hslots
  exact ⟨_, cells, w', v, hbegins, hreads, hreads', hcells, by rw [Ne, hslots]; decide⟩

/-- Nor is it among those of the whole grammar. -/
theorem not_forall_compile_map_result :
    ¬ ∀ (o : Orthography) (partsOfSpeech : StringSet) (edits : List CellEdit),
      compile o partsOfSpeech (edits.map CellEdit.result)
        = compile o partsOfSpeech (edits.map CellEdit.line) := by
  intro h
  have hsingular := h plainOrthography (.ofList ["v"])
    (.unchanged "TABLE TYPE = affix" :: singularEdits)
  have hslots : (compile plainOrthography (.ofList ["v"])
      ("TABLE TYPE = affix" :: singularEdits.map CellEdit.result)).map (·.affixMap.get? "v")
        = .ok (some [⟨.back, [⟨"Plural", .plain "s" "s"⟩]⟩]) := by
    decide
  have hslots' : (compile plainOrthography (.ofList ["v"])
      ("TABLE TYPE = affix" :: singularEdits.map CellEdit.line)).map (·.affixMap.get? "v")
        = .ok (some [⟨.back, [⟨"Singular", .empty⟩, ⟨"Plural", .plain "s" "s"⟩]⟩]) := by
    decide
  exact absurd (hslots.symm.trans ((congrArg (Except.map _) hsingular).trans hslots')) (by decide)

end GrammarTables

end Glossopoeia
