import Glossopoeia.Proofs.Affix.Solid
import Glossopoeia.Proofs.GrammarTable.Rules
import Glossopoeia.Proofs.Lexicon.Spelled

/-!
# The spelling of what grammar tables make

Every rule of a table comes from a cell, of the kind that it is filed under or of none
(`Orthography.Makes`).  So the rules of the slots keep texts solid as cells do, and the entries of
particle rules are spelled.  The entries of word tables are spelled if what their cells say after
the first equals sign is solid; `GrammarWalk.wordForms` collects these texts from the lines, without
reading anything else of the tables.
-/

set_option autoImplicit false

namespace Glossopoeia

open LexiconEntry Outcome Text

/-! ## Where rules come from -/

/-- The rule comes from a cell of the given kind, or of none. -/
def Orthography.Makes (o : Orthography) (kind : AffixKind) (rule : DeclensionRule) : Prop :=
  ∃ content k, o.compileCell content = .ok (k, rule.affix) ∧ k.getD kind = kind

namespace Orthography

variable {o : Orthography} {kind : AffixKind} {rule : DeclensionRule}

theorem holdsOfCells_makes (o : Orthography) : o.HoldsOfCells o.Makes :=
  fun _ content k _ _ hcell kind ↦ ⟨content, k, hcell, by cases k <;> rfl⟩

/-- Rules that are put to words keep them solid, if the additions of prefixes and suffixes are. -/
theorem Makes.keepsSolid (h : o.Makes kind rule) (hkind : kind ≠ .particle)
    (hadds : kind = .front ∨ kind = .back → ∀ add ∈ rule.affix.additions, Solid add.toList) :
    rule.affix.KeepsSolid := by
  obtain ⟨content, k, hcell, hk⟩ := h
  cases k with
  | none =>
    refine keepsSolid_compileCell hcell nofun fun h ↦ ?_
    rcases h with h | h <;> cases h
  | some k =>
    obtain rfl : k = kind := hk
    refine keepsSolid_compileCell hcell (fun h ↦ hkind (Option.some.inj h)) fun h ↦ hadds ?_
    exact h.imp Option.some.inj Option.some.inj

/-- The entries of a particle are spelled: what is spelled of it is its trimmed text. -/
theorem Makes.isSpelled_of_mem_particleEntries (h : o.Makes .particle rule) :
    ∀ e ∈ GrammarTables.particleEntries o rule, e.IsSpelled o.speller := by
  obtain ⟨content, k, hcell, hk⟩ := h
  have hspelled : ∀ add : List Char, o.spellAdd add
      = o.speller.spell (trimString (String.ofList add)) := by
    intro add
    rw [spellAdd, Speller.spell, onString, trimString, onString, String.toList_ofList,
      String.toList_ofList]
  rw [GrammarTables.particleEntries]
  rcases of_compileCell hcell with ⟨form, hform, rfl, haffix⟩ | ⟨rfl, _⟩ | ⟨rfl, haffix⟩
  · obtain ⟨hkinds, _, _⟩ := ruleOf_eq (o := o) form
    have hsolid := (CellForm.read?_eq_some hform).2 (hkinds ▸ hk)
    cases form with
    | plain k add =>
      rw [haffix, ruleOf, hspelled]
      refine List.forall_mem_singleton.2 (isSpelled_new_trimmed ?_ rfl rfl)
      rw [String.toList_ofList]
      exact hsolid add (List.mem_singleton_self add)
    | conditional k boundary a b =>
      rw [haffix, ruleOf, hspelled, hspelled]
      refine List.forall_mem_cons.2 ⟨isSpelled_new_trimmed ?_ rfl rfl,
        List.forall_mem_singleton.2 (isSpelled_new_trimmed ?_ rfl rfl)⟩
      · rw [String.toList_ofList]
        exact hsolid a (List.mem_cons_self ..)
      · rw [String.toList_ofList]
        exact hsolid b (List.mem_cons_of_mem _ (List.mem_singleton_self b))
  · cases hk
  · rw [haffix]
    exact fun _ he ↦ absurd he List.not_mem_nil

end Orthography

/-! ## Finished tables -/

namespace GrammarTables

variable {o : Orthography} {tables : GrammarTables}

theorem isSpelled_addBucket {targets : List String}
    (h : ∀ e ∈ tables.entries, e.IsSpelled o.speller) {entry : Bucket × List DeclensionRule}
    (hentry : Bucket.Holds o.Makes entry) :
    ∀ e ∈ (tables.addBucket o targets entry.1 entry.2).entries, e.IsSpelled o.speller := by
  rw [addBucket]
  split
  · next hkind =>
    intro e he
    rcases List.mem_append.1 he with he | he
    · exact h e he
    · obtain ⟨rule, hrule, he⟩ := List.mem_flatMap.1 he
      exact (hkind ▸ hentry .back rule hrule).isSpelled_of_mem_particleEntries e he
  · exact h

theorem isSpelled_flush {nounTags : List String} {s : TableState}
    (h : ∀ e ∈ tables.entries, e.IsSpelled o.speller)
    (hfiled : ∀ entry ∈ s.filed, Bucket.Holds o.Makes entry) :
    ∀ e ∈ (tables.flush o nounTags s).entries, e.IsSpelled o.speller := by
  rw [flush]
  split
  · exact h
  · exact List.foldlRecOn
      (motive := fun t : GrammarTables ↦ ∀ e ∈ t.entries, e.IsSpelled o.speller) _ _ h
      fun t ht entry hentry ↦ isSpelled_addBucket ht (hfiled entry hentry)

end GrammarTables

/-! ## The walk -/

namespace GrammarWalk

/-- The type of table that the lines after a line are in. -/
def typeAfter (tableType : String) (raw : String) : String :=
  match GrammarLine.read (trim raw.toList) with
  | .tableType type => type
  | _ => tableType

/-- The phonetic form that a line of a word table gives, if it is a cell. -/
def wordForm? (raw : String) : Option (List Char) :=
  match GrammarLine.read (trim raw.toList) with
  | .cell _ content => (cut '=' content).map fun parts ↦ trim (before '=' parts.2)
  | _ => none

/-- The phonetic forms that word tables give, in a table of the given type to begin with. -/
def wordForms (tableType : String) : List String → List (List Char)
  | [] => []
  | raw :: rest =>
    if tableType = "word" then (wordForm? raw).toList ++ wordForms (typeAfter tableType raw) rest
    else wordForms (typeAfter tableType raw) rest

/-- What a walk through solid word tables keeps: its rules come from cells, and its entries are
spelled. -/
structure Spells (o : Orthography) (w : GrammarWalk) : Prop where
  /-- The rules come from cells. -/
  rules : w.Holds o.Makes
  /-- The entries are spelled. -/
  entries : ∀ e ∈ w.tables.entries, e.IsSpelled o.speller

variable {o : Orthography} {nounTags : List String} {w w' : GrammarWalk} {raw : String}

theorem spells_start (o : Orthography) : start.Spells o where
  rules := holds_start
  entries := fun _ h ↦ absurd h List.not_mem_nil

theorem tableType_readCell {line : String} {path content : List Char}
    (h : w.readCell o line path content = .ok w') : w'.state.tableType = w.state.tableType := by
  obtain ⟨_, -, ⟨kind, _, -, -, rfl⟩ | ⟨_, _, -, -, rfl⟩ | ⟨-, rfl⟩⟩ := of_readCell h
  · cases kind <;> rfl
  · rfl
  · rfl

/-- A line sets the type of the table, or leaves it. -/
theorem tableType_step (h : w.step o nounTags raw = .ok w') :
    w'.state.tableType = typeAfter w.state.tableType raw := by
  rw [GrammarWalk.step] at h
  rw [typeAfter]
  split at h
  · next type hline =>
    cases h
    rw [hline]
  · next hline =>
    cases h
    rw [hline]
  · next hline =>
    cases h
    rw [hline]
    dsimp only
    split <;> rfl
  · next hline =>
    rw [hline]
    exact tableType_readCell h
  · next hline =>
    cases h
    rw [hline]

theorem Spells.readCell (hw : w.Spells o) {line : String} {path content : List Char}
    (hform : w.state.tableType = "word" → ∀ english form, cut '=' content = some (english, form) →
      Solid (trim (before '=' form)))
    (h : w.readCell o line path content = .ok w') :
    ∀ e ∈ w'.tables.entries, e.IsSpelled o.speller := by
  obtain ⟨_, -, ⟨_, _, -, -, rfl⟩ | ⟨english, form, htype, hcut, rfl⟩ | ⟨-, rfl⟩⟩ := of_readCell h
  · exact hw.entries
  · intro e he
    rcases List.mem_append.1 he with he | he
    · exact hw.entries e he
    · rw [List.mem_singleton.1 he]
      refine isSpelled_new ?_ rfl rfl
      rw [String.toList_ofList]
      exact hform htype english form hcut
  · exact hw.entries

theorem Spells.step (hw : w.Spells o)
    (hform : w.state.tableType = "word" → ∀ form ∈ wordForm? raw, Solid form)
    (h : w.step o nounTags raw = .ok w') : w'.Spells o := by
  refine ⟨hw.rules.step o.holdsOfCells_makes h, ?_⟩
  have hfinish : ∀ e ∈ (w.finishTable o nounTags).tables.entries, e.IsSpelled o.speller :=
    GrammarTables.isSpelled_flush hw.entries hw.rules.filed
  rw [GrammarWalk.step] at h
  rw [wordForm?] at hform
  split at h
  · cases h
    exact hfinish
  · cases h
    exact hw.entries
  · cases h
    split
    · exact hw.entries
    · exact hfinish
  · next path content hcell =>
    refine hw.readCell (fun htype english form hcut ↦ ?_) h
    rw [hcell] at hform
    dsimp only at hform
    rw [hcut] at hform
    exact hform htype _ rfl
  · cases h
    exact hw.entries

theorem Spells.walk (hw : w.Spells o) {lines : List String}
    (hforms : ∀ form ∈ wordForms w.state.tableType lines, Solid form)
    (h : w.walk o nounTags lines = .ok w') : w'.Spells o := by
  induction lines generalizing w with
  | nil =>
    rw [GrammarWalk.walk, List.foldlM_nil, pure_eq_ok] at h
    exact h ▸ hw
  | cons raw rest ih =>
    rw [GrammarWalk.walk, List.foldlM_cons, bind_eq_ok] at h
    obtain ⟨next, hnext, h⟩ := h
    rw [wordForms] at hforms
    refine ih (hw.step (fun htype form hform ↦ hforms form ?_) hnext) (fun form hform ↦ ?_) h
    · rw [if_pos htype]
      exact List.mem_append_left _ (Option.mem_toList.2 hform)
    · rw [tableType_step hnext] at hform
      refine hforms form ?_
      split
      · exact List.mem_append_right _ hform
      · exact hform

end GrammarWalk

/-- **The entries of a grammar are spelled** if the word tables of it are solid. -/
theorem GrammarTables.isSpelled_compile {o : Orthography} {partsOfSpeech : StringSet}
    {lines : List String} {tables : GrammarTables}
    (hforms : ∀ form ∈ GrammarWalk.wordForms "" lines, Solid form)
    (h : GrammarTables.compile o partsOfSpeech lines = .ok tables) :
    ∀ e ∈ tables.entries, e.IsSpelled o.speller := by
  rw [GrammarTables.compile, bind_eq_ok] at h
  obtain ⟨w, hw, h⟩ := h
  rw [← pure_eq_ok.1 h]
  have hspells : w.Spells o := (GrammarWalk.spells_start o).walk hforms hw
  exact GrammarTables.isSpelled_flush hspells.entries hspells.rules.filed

/-- The rules of all slots come from cells. -/
theorem GrammarTables.makes_compile {o : Orthography} {partsOfSpeech : StringSet}
    {lines : List String} {tables : GrammarTables}
    (h : GrammarTables.compile o partsOfSpeech lines = .ok tables) :
    tables.affixMap.Holds o.Makes :=
  holdsOfSlots_compile o.holdsOfCells_makes h

end Glossopoeia
