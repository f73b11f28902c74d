import Glossopoeia.Proofs.GrammarTable.Append
import Glossopoeia.Proofs.GrammarTable.Groups
import Glossopoeia.Proofs.GrammarTable.Items

/-!
# How the cells of a table are filed

A table of affixes is read cell by cell, and an empty cell has no kind of its own.  What becomes of
it can be said without the buckets that the table is read into: the cell takes the kind of the
nearest cell before it that has one, or else of the first cell after it, or else it is a suffix
(`AffixCell.kindAmong?`).  The slots of the table are then the kinds in the order of their first
cells, particles apart, each with the rules of its cells (`AffixCell.slots`).

The invariant that carries this through the table is `TableState.Files`: the buckets are the groups
of the cells read so far, and an empty cell that comes next would go where the latest cell with a
kind has gone.  One more cell keeps it (`Files.addRule`).  The two cases differ only if no kind has
been met: then all cells so far are in one waiting bucket, and the first kind settles all of them.

A table begins where nothing has been filed (`GrammarWalk.BeginsTable`) and lasts until a line ends
it (`GrammarWalk.ReadsTable`); `slotsOf_flush_of_readsTable` says what its parts of speech have
gained by then.
-/

set_option autoImplicit false

namespace Glossopoeia

open Outcome Text

/-! ## Cells -/

/-- A filled cell of a table of affixes. -/
structure AffixCell where
  /-- The kind that the cell has of its own; an empty cell has none. -/
  kind : Option AffixKind
  /-- Its rule, under the name of the form that the rule makes. -/
  rule : DeclensionRule
deriving DecidableEq

namespace AffixCell

/-- The kind of a cell among the others of its table: its own, or else that of the nearest cell
before it that has one, or else that of the first cell after it that has one.  The cells before it
are listed the nearest first. -/
def kindAmong? (before : List AffixCell) (cell : AffixCell) (after : List AffixCell) :
    Option AffixKind :=
  cell.kind.or ((before.findSome? kind).or (after.findSome? kind))

/-- The rules of cells in order, each with the kind of its cell. -/
def kindsFrom (before : List AffixCell) : List AffixCell → List (Option AffixKind × DeclensionRule)
  | [] => []
  | cell :: after => (kindAmong? before cell after, cell.rule) :: kindsFrom (cell :: before) after

/-- The rules of a table's cells in order, each with the kind that it is filed under: what is left
without a kind is a suffix. -/
def assignments (cells : List AffixCell) : List (AffixKind × DeclensionRule) :=
  (kindsFrom [] cells).map (Prod.map (·.getD .back) id)

/-- The rules of the cells of a kind, in order. -/
def rulesOf (kind : AffixKind) (cells : List AffixCell) : List DeclensionRule :=
  valuesOf kind (assignments cells)

/-- The slots of a table: one for each kind that its cells have, particles apart, in the order of
the first cells. -/
def slots (cells : List AffixCell) : List AffixSlot :=
  ((keysOf (assignments cells)).filter (· ≠ .particle)).map fun kind ↦ ⟨kind, rulesOf kind cells⟩

/-- One more cell gives its kind to the cells that have found none, and takes that of the latest
cell that has one if it has none itself. -/
theorem kindsFrom_append_singleton (before cells : List AffixCell) (cell : AffixCell) :
    kindsFrom before (cells ++ [cell])
      = (kindsFrom before cells).map (Prod.map (·.or cell.kind) id)
        ++ [(cell.kind.or ((cells.reverse ++ before).findSome? kind), cell.rule)] := by
  induction cells generalizing before with
  | nil => simp [kindsFrom, kindAmong?]
  | cons head rest ih =>
    simp [kindsFrom, kindAmong?, ih, List.findSome?_append, Option.or_assoc]

/-- Either all cells find a kind or none does. -/
theorem isSome_of_mem_kindsFrom (before cells : List AffixCell) :
    ∀ item ∈ kindsFrom before cells,
      item.1.isSome = ((cells.reverse ++ before).findSome? kind).isSome := by
  induction cells generalizing before with
  | nil => exact fun _ h ↦ absurd h List.not_mem_nil
  | cons head rest ih =>
    rw [kindsFrom, List.forall_mem_cons]
    constructor
    · rw [kindAmong?, Bool.eq_iff_iff]
      simp only [Option.isSome_or, List.findSome?_isSome_iff, Bool.or_eq_true, List.mem_append,
        List.mem_reverse, List.mem_cons]
      constructor
      · rintro (h | ⟨x, hx, h⟩ | ⟨x, hx, h⟩)
        · exact ⟨head, .inl (.inl rfl), h⟩
        · exact ⟨x, .inr hx, h⟩
        · exact ⟨x, .inl (.inr hx), h⟩
      · rintro ⟨x, (rfl | hx) | hx, h⟩
        · exact .inl h
        · exact .inr (.inr ⟨x, hx, h⟩)
        · exact .inr (.inl ⟨x, hx, h⟩)
    · simpa using ih (head :: before)

theorem map_rule_kindsFrom (before cells : List AffixCell) :
    (kindsFrom before cells).map Prod.snd = cells.map rule := by
  induction cells generalizing before with
  | nil => rfl
  | cons head rest ih => rw [kindsFrom, List.map_cons, List.map_cons, ih]

/-- Cells have the same groups whether what is left without a kind is called a suffix or not. -/
theorem groupsOf_assignments (cells : List AffixCell) :
    groupsOf (assignments cells)
      = (groupsOf (kindsFrom [] cells)).map (Prod.map (·.getD .back) id) := by
  refine groupsOf_map fun a ha b hb heq ↦ ?_
  have hsome : a.1.isSome = b.1.isSome :=
    (isSome_of_mem_kindsFrom [] cells a ha).trans (isSome_of_mem_kindsFrom [] cells b hb).symm
  revert heq hsome
  cases a.1 <;> cases b.1 <;> simp

theorem map_rule_assignments (cells : List AffixCell) :
    (assignments cells).map Prod.snd = cells.map rule := by
  rw [assignments, List.map_map, ← map_rule_kindsFrom []]
  rfl

/-- No two slots of a table are of one kind. -/
theorem nodup_kind_slots (cells : List AffixCell) : ((slots cells).map AffixSlot.kind).Nodup := by
  have hkinds : (slots cells).map AffixSlot.kind
      = (keysOf (assignments cells)).filter (· ≠ .particle) := by simp [slots, Function.comp_def]
  rw [hkinds]
  exact (nodup_keysOf _).filter _

/-- **No rule of a table is lost and none is doubled**: each is in one slot, or is that of a
particle. -/
theorem perm_slots (cells : List AffixCell) :
    ((slots cells).flatMap AffixSlot.rules ++ rulesOf .particle cells).Perm (cells.map rule) := by
  have hslots : (slots cells).flatMap AffixSlot.rules
      = ((keysOf (assignments cells)).filter (· ≠ .particle)).flatMap
          (valuesOf · (assignments cells)) := by simp [slots, rulesOf, List.flatMap_map]
  have hkeys : ((keysOf (assignments cells)).filter (· ≠ AffixKind.particle)
      ++ [AffixKind.particle]).Nodup :=
    List.nodup_append.2 ⟨(nodup_keysOf _).filter _, List.pairwise_singleton .., by simp⟩
  have hmem : ∀ item ∈ assignments cells, item.1 ∈
      (keysOf (assignments cells)).filter (· ≠ AffixKind.particle) ++ [AffixKind.particle] := by
    intro item hitem
    have hkey : item.1 ∈ keysOf (assignments cells) := mem_keysOf.2 ⟨item, hitem, rfl⟩
    by_cases h : item.1 = AffixKind.particle <;> simp [h, hkey]
  have hperm := perm_flatMap_valuesOf hkeys hmem
  rw [List.flatMap_append, List.flatMap_singleton, map_rule_assignments] at hperm
  rwa [hslots, rulesOf]

end AffixCell

/-! ## Buckets -/

namespace TableState

theorem fileUnder_map (bucket : Bucket) (rule : DeclensionRule) {keys : List Bucket}
    (hkeys : keys.Nodup) (f : Bucket → List DeclensionRule) :
    fileUnder bucket rule (keys.map fun k ↦ (k, f k))
      = (keys.map fun k ↦ (k, f k ++ if bucket = k then [rule] else []))
        ++ if bucket ∈ keys then [] else [(bucket, [rule])] := by
  induction keys with
  | nil => rfl
  | cons k rest ih =>
    obtain ⟨hk, hrest⟩ := List.nodup_cons.1 hkeys
    rw [List.map_cons, fileUnder]
    by_cases h : k = bucket
    · -- The bucket is open, and no later one is it.
      subst h
      have hmap : (rest.map fun k' ↦ (k', f k' ++ if k = k' then [rule] else []))
          = rest.map fun k' ↦ (k', f k') := List.map_congr_left fun k' hk' ↦ by
        rw [if_neg (fun heq : k = k' ↦ hk (heq ▸ hk')), List.append_nil]
      simp [hmap]
    · simp [h, Ne.symm h, ih hrest]

/-- To file a rule is to make it the last of the rules that are filed. -/
theorem fileUnder_groupsOf (bucket : Bucket) (rule : DeclensionRule)
    (items : List (Bucket × DeclensionRule)) :
    fileUnder bucket rule (groupsOf items) = groupsOf (items ++ [(bucket, rule)]) := by
  rw [groupsOf_append_singleton, groupsOf, fileUnder_map _ _ (nodup_keysOf items)]
  by_cases h : bucket ∈ keysOf items <;> simp [h]

/-- The first kind of a table settles all of its rules. -/
theorem settle_groupsOf (kind : AffixKind) {items : List (Bucket × DeclensionRule)}
    (h : ∀ item ∈ items, item.1 = none) :
    settle kind (groupsOf items) = groupsOf (items.map (Prod.map (·.or (some kind)) id)) := by
  by_cases hnil : items = []
  · subst hnil
    rfl
  · have hmap : ∀ item ∈ items.map (Prod.map (·.or (some kind)) id), item.1 = some kind := by
      rw [List.forall_mem_map]
      exact fun item hitem ↦ by simp [h item hitem]
    rw [groupsOf_of_forall_eq hnil h, groupsOf_of_forall_eq (by simpa using hnil) hmap, settle]
    simp [Function.comp_def]

/-- Has the table read these cells?  Its buckets are the groups of the cells, and an empty cell goes
where the latest cell with a kind has gone. -/
structure Files (cells : List AffixCell) (s : TableState) : Prop where
  /-- The buckets. -/
  filed : s.filed = groupsOf (AffixCell.kindsFrom [] cells)
  /-- Where an empty cell goes. -/
  last : s.current.getD s.last = cells.reverse.findSome? AffixCell.kind

variable {s : TableState} {cells : List AffixCell}

/-- One more cell. -/
theorem Files.addRule (h : Files cells s) (cell : AffixCell) :
    Files (cells ++ [cell]) (s.addRule cell.kind cell.rule) := by
  have hkinds := AffixCell.kindsFrom_append_singleton [] cells cell
  have hsome := AffixCell.isSome_of_mem_kindsFrom [] cells
  rw [List.append_nil, ← h.last] at hkinds hsome
  rw [TableState.addRule.eq_def]
  cases hkind : cell.kind with
  | none =>
    have hsame : (AffixCell.kindsFrom [] cells).map (Prod.map (·.or none) id)
        = AffixCell.kindsFrom [] cells := by simp only [Option.or_none]; exact List.map_id _
    rw [hkind, Option.none_or, hsame] at hkinds
    constructor
    · rw [hkinds, ← fileUnder_groupsOf, ← h.filed]
    · simp [hkind, ← h.last]
  | some kind =>
    rw [hkind, Option.some_or] at hkinds
    refine ⟨?_, by simp [hkind]⟩
    rw [hkinds, ← fileUnder_groupsOf, h.filed]
    refine congrArg (fileUnder (some kind) cell.rule) ?_
    by_cases hlast : s.current.getD s.last = none
    · -- All cells so far are waiting.
      have hnone : ∀ item ∈ AffixCell.kindsFrom [] cells, item.1 = none := fun item hitem ↦ by
        simpa [hlast] using hsome item hitem
      rw [hlast, Option.isNone_none, if_pos rfl, settle_groupsOf _ hnone]
    · -- No cell is.
      have hsame : (AffixCell.kindsFrom [] cells).map (Prod.map (·.or (some kind)) id)
          = AffixCell.kindsFrom [] cells := by
        refine (List.map_congr_left fun item hitem ↦ ?_).trans (List.map_id _)
        obtain ⟨own, hown⟩ := Option.isSome_iff_exists.1
          ((hsome item hitem).trans (Option.isSome_iff_ne_none.2 hlast))
        simp [Prod.map, Prod.ext_iff, hown]
      rw [hsame, if_neg (by simpa using hlast)]

/-- The slots of a table are those of its cells. -/
theorem Files.slots (h : Files cells s) : s.slots = AffixCell.slots cells := by
  have hslots : s.slots = (groupsOf (AffixCell.assignments cells)).flatMap fun group ↦
      if group.1 = .particle then [] else [⟨group.1, group.2⟩] := by
    rw [AffixCell.groupsOf_assignments, List.flatMap_map, ← h.filed]
    rfl
  rw [hslots, groupsOf, List.flatMap_map, AffixCell.slots, ← flatMap_ite_nil]
  rfl

/-- The entries of a table are those of its particles. -/
theorem Files.particles (h : Files cells s) (o : Orthography) :
    s.particles o
      = (AffixCell.rulesOf .particle cells).flatMap (GrammarTables.particleEntries o) := by
  rw [AffixCell.rulesOf, ← flatMap_groupsOf_ite _ _ List.flatMap_nil,
    AffixCell.groupsOf_assignments, List.flatMap_map, ← h.filed]
  rfl

end TableState

/-! ## Tables -/

namespace GrammarWalk

/-- Does a line end the table in hand? -/
def endsTable (w : GrammarWalk) (raw : String) : Bool :=
  match GrammarLine.read (trim raw.toList) with
  | .tableType _ => true
  | .partOfSpeech _ => !w.state.filed.isEmpty
  | _ => false

/-- The cell with the given path and content, if it is one of a table of affixes. -/
def affixCellAt? (o : Orthography) (w : GrammarWalk) (line : String) (path content : List Char) :
    Option AffixCell :=
  if w.state.tableType ∈ ["affix", "prefix", "postfix"] then
    match w.state.labels.resolve path line, o.compileCell (ruleText content) with
    | .ok declension, .ok (kind, affix) => some ⟨kind, ⟨declension, affix⟩⟩
    | _, _ => none
  else none

/-- The cell that a line fills in a table of affixes. -/
def affixCell? (o : Orthography) (w : GrammarWalk) (raw : String) : Option AffixCell :=
  let line := trim raw.toList
  match GrammarLine.read line with
  | .cell path content => w.affixCellAt? o (String.ofList line) path content
  | _ => none

/-- Does a table begin here?  One does with the grammar, and one with each line that ends
another. -/
inductive BeginsTable (o : Orthography) (tags : List String) : GrammarWalk → Prop where
  /-- The first table. -/
  | start : BeginsTable o tags .start
  /-- The table after a line that ends one. -/
  | next {w w' : GrammarWalk} {raw : String} (hends : w.endsTable raw = true)
      (hstep : w.step o tags raw = .ok w') : BeginsTable o tags w'

/-- Do these lines, none of which ends the table in hand, fill these cells? -/
inductive ReadsTable (o : Orthography) (tags : List String) :
    GrammarWalk → List String → List AffixCell → GrammarWalk → Prop where
  /-- No line fills no cell. -/
  | nil (w : GrammarWalk) : ReadsTable o tags w [] [] w
  /-- The cell of a line, if it fills one, comes before those of the lines that follow. -/
  | cons {w v w' : GrammarWalk} {raw : String} {rest : List String} {cells : List AffixCell}
      (hends : w.endsTable raw = false) (hstep : w.step o tags raw = .ok v)
      (hrest : ReadsTable o tags v rest cells w') :
      ReadsTable o tags w (raw :: rest) ((w.affixCell? o raw).toList ++ cells) w'

variable {o : Orthography} {tags : List String} {w w' : GrammarWalk} {raw : String}

/-- A table that begins has no rules, and none has been filed anywhere. -/
theorem BeginsTable.files (h : BeginsTable o tags w) : w.state.Files [] := by
  cases h with
  | start => exact ⟨rfl, rfl⟩
  | @next v _ raw hends hstep =>
    rw [endsTable] at hends
    rw [step] at hstep
    split at hends
    · next hline =>
      rw [hline] at hstep
      cases hstep
      exact ⟨rfl, rfl⟩
    · next hline =>
      rw [hline] at hstep
      dsimp only at hstep
      rw [if_neg (by simpa using hends)] at hstep
      cases hstep
      exact ⟨rfl, rfl⟩
    · cases hends

/-- A cell is filed, if it is one of a table of affixes. -/
theorem files_readCell {cells : List AffixCell} {line : String} {path content : List Char}
    (h : w.readCell o line path content = .ok w') (hfiles : w.state.Files cells) :
    w'.state.Files (cells ++ (w.affixCellAt? o line path content).toList) ∧
      w'.tables.affixMap = w.tables.affixMap := by
  rw [readCell, bind_eq_ok] at h
  obtain ⟨declension, hdeclension, h⟩ := h
  rw [affixCellAt?, hdeclension]
  split at h
  · next htype =>
    obtain ⟨⟨kind, affix⟩, hcell, h⟩ := bind_eq_ok.1 h
    cases pure_eq_ok.1 h
    rw [if_pos htype, hcell]
    exact ⟨hfiles.addRule ⟨kind, ⟨declension, affix⟩⟩, rfl⟩
  · next htype =>
    have hother : w'.state = w.state ∧ w'.tables.affixMap = w.tables.affixMap := by
      split at h
      · split at h
        · cases h
        · split at h
          · cases h
          · cases pure_eq_ok.1 h
            exact ⟨rfl, rfl⟩
      · cases pure_eq_ok.1 h
        exact ⟨rfl, rfl⟩
    rw [if_neg htype, Option.toList_none, List.append_nil, hother.1]
    exact ⟨hfiles, hother.2⟩

/-- A line that does not end the table files the cell that it fills, and leaves the slots of the
tables before alone. -/
theorem files_step {cells : List AffixCell} (hends : w.endsTable raw = false)
    (h : w.step o tags raw = .ok w') (hfiles : w.state.Files cells) :
    w'.state.Files (cells ++ (w.affixCell? o raw).toList) ∧
      w'.tables.affixMap = w.tables.affixMap := by
  rw [endsTable] at hends
  rw [step] at h
  rw [affixCell?]
  dsimp only at h
  split at h
  · next hline =>
    rw [hline] at hends
    cases hends
  · next hline =>
    cases h
    rw [hline, Option.toList_none, List.append_nil]
    exact ⟨⟨hfiles.filed, hfiles.last⟩, rfl⟩
  · next hline =>
    rw [hline] at hends
    rw [if_pos (by simpa using hends)] at h
    cases h
    rw [hline, Option.toList_none, List.append_nil]
    exact ⟨⟨hfiles.filed, hfiles.last⟩, rfl⟩
  · next hline =>
    rw [hline]
    exact files_readCell h hfiles
  · next hline =>
    cases h
    rw [hline, Option.toList_none, List.append_nil]
    exact ⟨hfiles, rfl⟩

/-- A table has filed the cells that its lines fill. -/
theorem ReadsTable.files {lines : List String} {cells : List AffixCell}
    (h : ReadsTable o tags w lines cells w') {earlier : List AffixCell}
    (hfiles : w.state.Files earlier) :
    w'.state.Files (earlier ++ cells) ∧ w'.tables.affixMap = w.tables.affixMap := by
  induction h generalizing earlier with
  | nil => exact ⟨by rwa [List.append_nil], rfl⟩
  | cons hends hstep _ ih =>
    obtain ⟨hnext, hmap⟩ := files_step hends hstep hfiles
    obtain ⟨hlast, hmap'⟩ := ih hnext
    exact ⟨by rwa [← List.append_assoc], hmap'.trans hmap⟩

/-- **What a table defines.**  Each cell of the table is filed under its kind, or that of the
nearest cell before it that has one, or else that of the first cell after it that has one, or else
as a suffix.  The parts of speech that the table is about gain one slot for each kind that cells are
filed under, in the order of the first of them, with their rules in order, and no other part of
speech gains any.  Particles are entries instead.  So no rule is lost, doubled or misplaced. -/
theorem slotsOf_flush_of_readsTable {partsOfSpeech : StringSet} {lines : List String}
    {cells : List AffixCell} (hbegins : BeginsTable o (nounTags partsOfSpeech) w)
    (hreads : ReadsTable o (nounTags partsOfSpeech) w lines cells w') :
    (∀ pos, AffixMap.slotsOf
        (w'.tables.flush o (nounTags partsOfSpeech) w'.state).affixMap pos
      = AffixMap.slotsOf w.tables.affixMap pos
        ++ if pos ∈ GrammarTables.targets (nounTags partsOfSpeech) w'.state.partOfSpeech
          then AffixCell.slots cells else []) ∧
    (w'.tables.flush o (nounTags partsOfSpeech) w'.state).entries
      = w'.tables.entries
        ++ (AffixCell.rulesOf .particle cells).flatMap (GrammarTables.particleEntries o) ∧
    ((AffixCell.slots cells).map AffixSlot.kind).Nodup ∧
    ((AffixCell.slots cells).flatMap AffixSlot.rules ++ AffixCell.rulesOf .particle cells).Perm
      (cells.map AffixCell.rule) := by
  obtain ⟨hfiles, hmap⟩ := hreads.files hbegins.files
  rw [List.nil_append] at hfiles
  refine ⟨fun pos ↦ ?_, ?_, AffixCell.nodup_kind_slots cells, AffixCell.perm_slots cells⟩
  · rw [GrammarTables.slotsOf_flush o (nodup_nounTags partsOfSpeech), hfiles.slots, hmap]
  · rw [GrammarTables.entries_flush, hfiles.particles]

/-- A table in which cells wait for a kind, particles come between others, and a kind comes back. -/
def mixedTable : List String :=
  ["part-of-speech = n", "cols = Half/Dual/Third/Every/Zero/Plural",
    "H ~ -", "D ~ o-", "T ~ li -", "E ~ -", "Z ~ -i", "P ~ u-"]

/-- What its cells hold. -/
def mixedCells : List AffixCell :=
  [⟨none, "Half", .empty⟩, ⟨some .front, "Dual", .plain "o" "o"⟩,
    ⟨some .particle, "Third", .plain "li " "li"⟩, ⟨none, "Every", .empty⟩,
    ⟨some .back, "Zero", .plain "i" "i"⟩, ⟨some .front, "Plural", .plain "u" "u"⟩]

/-- The first empty cell is a prefix, and the second is a particle. -/
theorem slotsOf_flush_mixedTable :
    ∃ w w', BeginsTable GrammarTables.plainOrthography (nounTags (.ofList ["n", "n.f", "v"])) w ∧
      ReadsTable GrammarTables.plainOrthography (nounTags (.ofList ["n", "n.f", "v"])) w mixedTable
        mixedCells w' ∧
      AffixMap.slotsOf (w'.tables.flush GrammarTables.plainOrthography
          (nounTags (.ofList ["n", "n.f", "v"])) w'.state).affixMap "n.f"
        = [⟨.front, [⟨"Half", .empty⟩, ⟨"Dual", .plain "o" "o"⟩, ⟨"Plural", .plain "u" "u"⟩]⟩,
          ⟨.back, [⟨"Zero", .plain "i" "i"⟩]⟩] := by
  have hbegins : BeginsTable GrammarTables.plainOrthography (nounTags (.ofList ["n", "n.f", "v"]))
      ⟨{ TableState.start with tableType := "affix" }, .empty⟩ :=
    .next (show endsTable .start "TABLE TYPE = affix" = true by decide) rfl
  obtain ⟨cells, w', hreads, hcells, htag⟩ : ∃ cells w', ReadsTable GrammarTables.plainOrthography
      (nounTags (.ofList ["n", "n.f", "v"]))
      ⟨{ TableState.start with tableType := "affix" }, .empty⟩ mixedTable cells w' ∧
      cells = mixedCells ∧ w'.state.partOfSpeech = "n" :=
    ⟨_, _, .cons rfl rfl <| .cons rfl rfl <| .cons rfl rfl <| .cons rfl rfl <| .cons rfl rfl <|
      .cons rfl rfl <| .cons rfl rfl <| .cons rfl rfl <| .nil _, by decide, rfl⟩
  subst hcells
  refine ⟨_, w', hbegins, hreads, ?_⟩
  rw [(slotsOf_flush_of_readsTable hbegins hreads).1 "n.f", htag]
  decide

end GrammarWalk

end Glossopoeia
