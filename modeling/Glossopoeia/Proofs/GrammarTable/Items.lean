import Glossopoeia.Proofs.Dictionary
import Glossopoeia.Proofs.GrammarTable.Entries

/-!
# What a grammar says, item by item

A grammar amounts to a list of items: the words that the cells of its word tables hold, and its
tables, each with the rules that it has when it ends.  `GrammarWalk.items` reads this list off a
walk, and what a grammar defines is the items added up in their order (`compile_eq_foldl`).

What an item adds does not depend on what was there before it.  So the entries of a grammar are
those of its items one after the other (`entries_compile`), and the slots of a part of speech are
those of the tables that are about it (`slotsOf_compile`).  No line drops, repeats or invents a word
or a slot: a cell of a word table is always a word (`exists_wordCell?`), what a line brings is among
the items (`Reads.mem_items`), and a word among the items is one that a line brings
(`exists_reads_of_mem_items`).
-/

set_option autoImplicit false

namespace Glossopoeia

open Outcome Text

/-! ## Finished tables -/

/-- The slots of a part of speech. -/
def AffixMap.slotsOf (map : AffixMap) (pos : String) : List AffixSlot := (map.get? pos).getD []

theorem AffixMap.slotsOf_alter (map : AffixMap) (target pos : String) (more : List AffixSlot) :
    AffixMap.slotsOf (map.alter target fun slots ↦ slots.getD [] ++ more) pos
      = map.slotsOf pos ++ if pos = target then more else [] := by
  rw [slotsOf, slotsOf, Dictionary.get?_alter]
  by_cases hpos : pos = target
  · rw [if_pos hpos, if_pos hpos, hpos, Option.getD_some]
  · rw [if_neg hpos, if_neg hpos, List.append_nil]

/-- No part of speech gets the slots twice. -/
theorem AffixMap.slotsOf_foldl_alter (map : AffixMap) {targets : List String}
    (htargets : targets.Nodup) (more : List AffixSlot) (pos : String) :
    AffixMap.slotsOf (targets.foldl
        (fun map target ↦ map.alter target fun slots ↦ slots.getD [] ++ more) map) pos
      = map.slotsOf pos ++ if pos ∈ targets then more else [] := by
  induction targets generalizing map with
  | nil => exact (List.append_nil _).symm
  | cons target rest ih =>
    obtain ⟨htarget, hrest⟩ := List.nodup_cons.1 htargets
    rw [List.foldl_cons, ih _ hrest, slotsOf_alter, List.append_assoc]
    by_cases hpos : pos = target
    · subst hpos
      rw [if_pos rfl, if_neg htarget, List.append_nil, if_pos (List.mem_cons_self ..)]
    · rw [if_neg hpos, List.nil_append]
      simp only [List.mem_cons, hpos, false_or]

/-- If every step puts something behind what `read` gives, a fold puts all of it there in order. -/
theorem read_foldl_eq_append {σ α β : Type} (read : σ → List β) {step : σ → α → σ}
    {more : α → List β} (h : ∀ s a, read (step s a) = read s ++ more a) (list : List α) (s : σ) :
    read (list.foldl step s) = read s ++ list.flatMap more := by
  induction list generalizing s with
  | nil => exact (List.append_nil _).symm
  | cons a rest ih => rw [List.foldl_cons, ih, h, List.flatMap_cons, List.append_assoc]

namespace TableState

/-- The entries that a bucket makes, if it holds particles. -/
def particlesOf (o : Orthography) (entry : Bucket × List DeclensionRule) : List LexiconEntry :=
  if entry.1.getD .back = .particle then entry.2.flatMap (GrammarTables.particleEntries o) else []

/-- The slot that a bucket makes, if it does not; rules still waiting for a kind follow the word. -/
def slotOf (entry : Bucket × List DeclensionRule) : List AffixSlot :=
  if entry.1.getD .back = .particle then [] else [⟨entry.1.getD .back, entry.2⟩]

/-- The entries of the particles of a table. -/
def particles (o : Orthography) (s : TableState) : List LexiconEntry :=
  s.filed.flatMap (particlesOf o)

/-- The slots of a table. -/
def slots (s : TableState) : List AffixSlot := s.filed.flatMap slotOf

end TableState

namespace GrammarTables

variable (o : Orthography) {nounTags : List String}

theorem nodup_targets (hnoun : nounTags.Nodup) (pos : String) : (targets nounTags pos).Nodup := by
  rw [targets]
  split
  · exact hnoun
  · exact List.pairwise_singleton _ pos

theorem entries_addBucket (targets : List String) (tables : GrammarTables)
    (entry : Bucket × List DeclensionRule) :
    (tables.addBucket o targets entry.1 entry.2).entries
      = tables.entries ++ TableState.particlesOf o entry := by
  rw [addBucket, TableState.particlesOf]
  split
  · rfl
  · exact (List.append_nil _).symm

theorem slotsOf_addBucket {targets : List String} (htargets : targets.Nodup) (pos : String)
    (tables : GrammarTables) (entry : Bucket × List DeclensionRule) :
    AffixMap.slotsOf (tables.addBucket o targets entry.1 entry.2).affixMap pos
      = AffixMap.slotsOf tables.affixMap pos
        ++ if pos ∈ targets then TableState.slotOf entry else [] := by
  rw [addBucket, TableState.slotOf]
  split
  · rw [ite_self, List.append_nil]
  · exact AffixMap.slotsOf_foldl_alter _ htargets _ pos

/-- A finished table adds its particles to the entries. -/
theorem entries_flush (tables : GrammarTables) (s : TableState) :
    (tables.flush o nounTags s).entries = tables.entries ++ s.particles o := by
  rw [flush, TableState.particles]
  split
  · next hnil => rw [List.isEmpty_iff.1 hnil, List.flatMap_nil, List.append_nil]
  · exact read_foldl_eq_append entries (entries_addBucket o _) s.filed _

/-- A finished table adds its slots to the parts of speech that it is about. -/
theorem slotsOf_flush (hnoun : nounTags.Nodup) (tables : GrammarTables) (s : TableState)
    (pos : String) :
    AffixMap.slotsOf (tables.flush o nounTags s).affixMap pos
      = AffixMap.slotsOf tables.affixMap pos
        ++ if pos ∈ targets nounTags s.partOfSpeech then s.slots else [] := by
  have htargets := nodup_targets hnoun s.partOfSpeech
  rw [flush, TableState.slots]
  split
  · next hnil => rw [List.isEmpty_iff.1 hnil, List.flatMap_nil, ite_self, List.append_nil]
  · -- To make a part of speech known is to give it no slots.
    have hknown := AffixMap.slotsOf_foldl_alter tables.affixMap htargets [] pos
    simp only [List.append_nil, ite_self] at hknown
    have hadd := read_foldl_eq_append
      (fun tables : GrammarTables ↦ AffixMap.slotsOf tables.affixMap pos)
      (slotsOf_addBucket o htargets pos) s.filed
    rw [hadd, hknown]
    split
    · rfl
    · rw [List.flatMap_eq_nil_iff.2 fun _ _ ↦ rfl]

end GrammarTables

/-! ## Items -/

/-- A filled cell of a word table. -/
structure WordCell where
  /-- What the word means. -/
  english : List Char
  /-- How it sounds. -/
  form : List Char
  /-- Its part of speech, which is that of the table. -/
  partOfSpeech : String
  /-- The label of the cell. -/
  label : String

/-- The entry of a cell. -/
def WordCell.entry (o : Orthography) (c : WordCell) : LexiconEntry :=
  .new (String.ofList c.form) (o.speller.spell (String.ofList c.form)) (String.ofList c.english)
    c.partOfSpeech [c.label]

/-- What a grammar is made of. -/
inductive GrammarItem where
  /-- A word. -/
  | word (cell : WordCell)
  /-- A table, as it is when it ends. -/
  | table (s : TableState)

namespace GrammarItem

/-- The entries that an item makes. -/
def entries (o : Orthography) : GrammarItem → List LexiconEntry
  | word cell => [cell.entry o]
  | table s => s.particles o

/-- The slots that an item gives to a part of speech. -/
def slotsOf (nounTags : List String) (pos : String) : GrammarItem → List AffixSlot
  | word _ => []
  | table s => if pos ∈ GrammarTables.targets nounTags s.partOfSpeech then s.slots else []

end GrammarItem

namespace GrammarTables

variable (o : Orthography) (nounTags : List String)

/-- Add an item to what was there before it. -/
def addItem (tables : GrammarTables) : GrammarItem → GrammarTables
  | .word cell => { tables with entries := tables.entries ++ [cell.entry o] }
  | .table s => tables.flush o nounTags s

theorem entries_addItem (tables : GrammarTables) (item : GrammarItem) :
    (tables.addItem o nounTags item).entries = tables.entries ++ item.entries o := by
  cases item with
  | word cell => rfl
  | table s => exact entries_flush o tables s

variable {nounTags}

theorem slotsOf_addItem (hnoun : nounTags.Nodup) (pos : String) (tables : GrammarTables)
    (item : GrammarItem) :
    AffixMap.slotsOf (tables.addItem o nounTags item).affixMap pos
      = AffixMap.slotsOf tables.affixMap pos ++ item.slotsOf nounTags pos := by
  cases item with
  | word cell => exact (List.append_nil _).symm
  | table s => exact slotsOf_flush o hnoun tables s pos

end GrammarTables

/-! ## The items of a walk -/

namespace GrammarWalk

/-- The word that a line holds, if it is a cell of a word table. -/
def wordCell? (w : GrammarWalk) (raw : String) : Option WordCell :=
  let line := trim raw.toList
  match GrammarLine.read line with
  | .cell path content =>
    if w.state.tableType = "word" then
      match cut '=' content, w.state.labels.resolve path (String.ofList line) with
      | some (english, form), .ok label =>
        some ⟨english, trim (before '=' form), w.state.partOfSpeech, label⟩
      | _, _ => none
    else none
  | _ => none

/-- The items that a line brings: the table that it ends, or the word that it holds. -/
def itemsOf (w : GrammarWalk) (raw : String) : List GrammarItem :=
  match GrammarLine.read (trim raw.toList) with
  | .tableType _ => [.table w.state]
  | .partOfSpeech _ => if w.state.filed.isEmpty then [] else [.table w.state]
  | .cell _ _ => (w.wordCell? raw).toList.map .word
  | _ => []

/-- The items of the lines that follow, with the table that the last of them leaves. -/
def items (o : Orthography) (nounTags : List String) (w : GrammarWalk) :
    List String → List GrammarItem
  | [] => [.table w.state]
  | raw :: rest =>
    w.itemsOf raw ++
      match w.step o nounTags raw with
      | .ok w' => w'.items o nounTags rest
      | .error _ => []

variable {o : Orthography} {nounTags : List String} {w w' : GrammarWalk} {raw : String}

/-- A cell of a word table is a word, or it is an error. -/
theorem exists_wordCell? {path content : List Char}
    (hline : GrammarLine.read (trim raw.toList) = .cell path content)
    (htype : w.state.tableType = "word") (h : w.step o nounTags raw = .ok w') :
    ∃ cell, w.wordCell? raw = some cell ∧
      w'.tables = { w.tables with entries := w.tables.entries ++ [cell.entry o] } := by
  rw [step, hline] at h
  obtain ⟨label, hlabel, ⟨kind, affix, haffix, -, -⟩ | ⟨english, form, -, hcut, rfl⟩ | ⟨hne, -⟩⟩ :=
    of_readCell h
  · rw [htype] at haffix
    exact absurd haffix (by decide)
  · refine ⟨⟨english, trim (before '=' form), w.state.partOfSpeech, label⟩, ?_, rfl⟩
    rw [wordCell?, hline]
    dsimp only
    rw [if_pos htype, hcut, hlabel]
  · exact absurd htype hne

theorem wordCell?_of_ne {path content : List Char}
    (hline : GrammarLine.read (trim raw.toList) = .cell path content)
    (htype : w.state.tableType ≠ "word") : w.wordCell? raw = none := by
  rw [wordCell?, hline]
  exact if_neg htype

theorem tables_readCell_of_ne {line : String} {path content : List Char}
    (htype : w.state.tableType ≠ "word") (h : w.readCell o line path content = .ok w') :
    w'.tables = w.tables := by
  obtain ⟨label, -, ⟨kind, affix, -, -, rfl⟩ | ⟨_, _, hword, -, -⟩ | ⟨-, rfl⟩⟩ := of_readCell h
  · rfl
  · exact absurd hword htype
  · rfl

/-- **What a line does to the tables** is to add its items. -/
theorem tables_step (h : w.step o nounTags raw = .ok w') :
    w'.tables = (w.itemsOf raw).foldl (GrammarTables.addItem o nounTags) w.tables := by
  have hstep := h
  rw [step] at h
  rw [itemsOf]
  split at h
  · next hline =>
    cases h
    rw [hline]
    rfl
  · next hline =>
    cases h
    rw [hline]
    rfl
  · next hline =>
    cases h
    rw [hline]
    dsimp only
    split <;> rfl
  · next path content hline =>
    rw [hline]
    dsimp only
    by_cases htype : w.state.tableType = "word"
    · obtain ⟨cell, hcell, htables⟩ := exists_wordCell? hline htype hstep
      rw [hcell, htables]
      rfl
    · rw [wordCell?_of_ne hline htype, tables_readCell_of_ne htype h]
      rfl
  · next hline =>
    cases h
    rw [hline]
    rfl

theorem tables_walk {lines : List String} (h : w.walk o nounTags lines = .ok w') :
    w'.tables.flush o nounTags w'.state
      = (w.items o nounTags lines).foldl (GrammarTables.addItem o nounTags) w.tables := by
  induction lines generalizing w with
  | nil =>
    rw [walk, List.foldlM_nil, pure_eq_ok] at h
    rw [h]
    rfl
  | cons raw rest ih =>
    rw [walk, List.foldlM_cons, bind_eq_ok] at h
    obtain ⟨next, hnext, h⟩ := h
    rw [items, hnext, List.foldl_append, ← tables_step hnext]
    exact ih h

/-- A walk that reads on brings the items of the lines that follow. -/
theorem items_append {first : List String} (h : w.walk o nounTags first = .ok w')
    (second : List String) :
    ∃ items, w.items o nounTags (first ++ second) = items ++ w'.items o nounTags second := by
  induction first generalizing w with
  | nil =>
    rw [walk, List.foldlM_nil, pure_eq_ok] at h
    exact ⟨[], by rw [h]; rfl⟩
  | cons raw rest ih =>
    rw [walk, List.foldlM_cons, bind_eq_ok] at h
    obtain ⟨next, hnext, h⟩ := h
    obtain ⟨items, hitems⟩ := ih h
    refine ⟨w.itemsOf raw ++ items, ?_⟩
    rw [List.cons_append, GrammarWalk.items, hnext, List.append_assoc]
    exact congrArg _ hitems

/-- Does a walk over `lines` come to the line `raw` with `w` in hand? -/
def Reads (o : Orthography) (nounTags lines : List String) (w : GrammarWalk) (raw : String) :
    Prop :=
  ∃ before after, lines = before ++ raw :: after ∧ start.walk o nounTags before = .ok w

/-- What a line brings is among the items of the walk that reads it. -/
theorem Reads.mem_items {lines : List String} (h : Reads o nounTags lines w raw)
    {item : GrammarItem} (hitem : item ∈ w.itemsOf raw) : item ∈ start.items o nounTags lines := by
  obtain ⟨before, after, rfl, hwalk⟩ := h
  obtain ⟨items, hitems⟩ := items_append hwalk (raw :: after)
  rw [hitems, GrammarWalk.items]
  exact List.mem_append_right _ (List.mem_append_left _ hitem)

/-- The words that a line brings are those that it holds. -/
theorem mem_itemsOf_iff {cell : WordCell} :
    .word cell ∈ w.itemsOf raw ↔ w.wordCell? raw = some cell := by
  constructor
  · intro h
    rw [itemsOf] at h
    split at h
    · cases List.mem_singleton.1 h
    · split at h
      · exact absurd h List.not_mem_nil
      · cases List.mem_singleton.1 h
    · obtain ⟨_, hcell, heq⟩ := List.mem_map.1 h
      cases heq
      exact Option.mem_toList.1 hcell
    · exact absurd h List.not_mem_nil
  · intro h
    have hcell := h
    rw [wordCell?] at h
    split at h
    · next hline =>
      rw [itemsOf, hline]
      exact List.mem_map_of_mem (Option.mem_toList.2 hcell)
    · cases h

/-- A word among the items of a walk is one that a line brings. -/
theorem exists_walk_of_mem_items {cell : WordCell} {lines : List String}
    (h : .word cell ∈ w.items o nounTags lines) :
    ∃ before raw after w', lines = before ++ raw :: after ∧ w.walk o nounTags before = .ok w' ∧
      w'.wordCell? raw = some cell := by
  induction lines generalizing w with
  | nil => cases List.mem_singleton.1 h
  | cons raw rest ih =>
    rw [items] at h
    rcases List.mem_append.1 h with h | h
    · exact ⟨[], raw, rest, w, rfl, rfl, mem_itemsOf_iff.1 h⟩
    · split at h
      · next next hnext =>
        obtain ⟨before, raw', after, w', rfl, hwalk, hcell⟩ := ih h
        refine ⟨raw :: before, raw', after, w', rfl, ?_, hcell⟩
        rw [walk, List.foldlM_cons, hnext]
        exact hwalk
      · exact absurd h List.not_mem_nil

theorem exists_reads_of_mem_items {cell : WordCell} {lines : List String}
    (h : .word cell ∈ start.items o nounTags lines) :
    ∃ w raw, Reads o nounTags lines w raw ∧ w.wordCell? raw = some cell := by
  obtain ⟨before, raw, after, w, hlines, hwalk, hcell⟩ := exists_walk_of_mem_items h
  exact ⟨w, raw, ⟨before, after, hlines, hwalk⟩, hcell⟩

/-- A line that is read in a walk to the end has been read to the end itself. -/
theorem Reads.exists_step {lines : List String} (h : Reads o nounTags lines w raw)
    (hwalk : start.walk o nounTags lines = .ok w') : ∃ next, w.step o nounTags raw = .ok next := by
  obtain ⟨before, after, rfl, hbefore⟩ := h
  rw [walk, List.foldlM_append, bind_eq_ok] at hwalk
  obtain ⟨_, hbefore', hwalk⟩ := hwalk
  cases hbefore.symm.trans hbefore'
  rw [List.foldlM_cons, bind_eq_ok] at hwalk
  obtain ⟨next, hnext, _⟩ := hwalk
  exact ⟨next, hnext⟩

end GrammarWalk

/-! ## Grammars -/

theorem nodup_nounTags (partsOfSpeech : StringSet) : (nounTags partsOfSpeech).Nodup :=
  partsOfSpeech.nodup_keys.filter _

namespace GrammarTables

/-- The items of a grammar. -/
def items (o : Orthography) (partsOfSpeech : StringSet) (lines : List String) : List GrammarItem :=
  GrammarWalk.start.items o (nounTags partsOfSpeech) lines

variable {o : Orthography} {partsOfSpeech : StringSet} {lines : List String}
  {tables : GrammarTables}

theorem compile_eq_ok :
    compile o partsOfSpeech lines = .ok tables ↔
      ∃ w, GrammarWalk.start.walk o (nounTags partsOfSpeech) lines = .ok w ∧
        tables = w.tables.flush o (nounTags partsOfSpeech) w.state := by
  rw [compile, bind_eq_ok]
  exact exists_congr fun w ↦ and_congr_right fun _ ↦ pure_eq_ok.trans eq_comm

/-- **A grammar is its items, added up.** -/
theorem compile_eq_foldl (h : compile o partsOfSpeech lines = .ok tables) :
    tables = (items o partsOfSpeech lines).foldl (addItem o (nounTags partsOfSpeech)) empty := by
  obtain ⟨w, hw, rfl⟩ := compile_eq_ok.1 h
  exact GrammarWalk.tables_walk hw

/-- The entries of a grammar are those of its items. -/
theorem entries_compile (h : compile o partsOfSpeech lines = .ok tables) :
    tables.entries = (items o partsOfSpeech lines).flatMap (GrammarItem.entries o) := by
  rw [compile_eq_foldl h, read_foldl_eq_append entries (entries_addItem o _)]
  rfl

/-- The slots of a part of speech are those of the tables that are about it. -/
theorem slotsOf_compile (h : compile o partsOfSpeech lines = .ok tables) (pos : String) :
    AffixMap.slotsOf tables.affixMap pos
      = (items o partsOfSpeech lines).flatMap
          (GrammarItem.slotsOf (nounTags partsOfSpeech) pos) := by
  have hadd := read_foldl_eq_append
    (fun tables : GrammarTables ↦ AffixMap.slotsOf tables.affixMap pos)
    (slotsOf_addItem o (nodup_nounTags partsOfSpeech) pos)
  rw [compile_eq_foldl h, hadd]
  rfl

end GrammarTables

end Glossopoeia
