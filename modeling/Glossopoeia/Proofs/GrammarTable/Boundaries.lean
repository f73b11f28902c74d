import Glossopoeia.Proofs.GrammarTable.Append

/-!
# Where tables end

A line that opens a table ends the table before it, and so does a line with a part of speech, once
cells have been filed.  The two lines do not do the same: the first sets the type of the new table
and forgets the part of speech, and the second keeps the one and sets the other.  Nothing can tell
which of them has ended a table, though.  Before the line with a part of speech an opening line with
the type in force may be put, and the grammar is compiled as it was
(`GrammarTables.compile_insert_opening`): to the same tables, or with the same error.

What is in force where can be read off the lines: `TableOutline.after` is the type of the table in
hand and whether an affix cell has been filed in it.  It is what the walk has in hand whenever it
comes so far (`GrammarWalk.outline_walk`), as each line does to it what the line tells
(`GrammarWalk.outline_step`).
-/

set_option autoImplicit false

namespace Glossopoeia

open Outcome Text

/-! ## The table in hand, as the lines tell it -/

/-- What the lines of a grammar tell of the table in hand. -/
structure TableOutline where
  /-- The type of the table. -/
  type : String
  /-- Has an affix cell been filed since the table began? -/
  hasCells : Bool
deriving DecidableEq, Repr

namespace TableOutline

/-- No table yet. -/
def start : TableOutline := ⟨"", false⟩

/-- Is it a table of affixes? -/
def isAffixal (t : TableOutline) : Bool := t.type ∈ ["affix", "prefix", "postfix"]

/-- What one more line tells.  A part of speech ends the table if there are cells in it, and so
there is none behind it in any case. -/
def next (t : TableOutline) (raw : String) : TableOutline :=
  match GrammarLine.read (trim raw.toList) with
  | .tableType type => ⟨type, false⟩
  | .partOfSpeech _ => ⟨t.type, false⟩
  | .cell _ _ => ⟨t.type, t.hasCells || t.isAffixal⟩
  | .labels _ => t
  | .other => t

/-- What lines tell. -/
def after (lines : List String) : TableOutline := lines.foldl next start

/-- Cells are filed in tables of affixes alone. -/
theorem isAffixal_next {t : TableOutline} (h : t.hasCells = true → t.isAffixal = true)
    (raw : String) : (t.next raw).hasCells = true → (t.next raw).isAffixal = true := by
  rw [next]
  split
  · exact fun hcells ↦ nomatch hcells
  · exact fun hcells ↦ nomatch hcells
  · intro hcells
    exact (Bool.or_eq_true_iff.1 hcells).elim h id
  · exact h
  · exact h

theorem isAffixal_after {lines : List String} :
    (after lines).hasCells = true → (after lines).isAffixal = true :=
  List.foldlRecOn (motive := fun t ↦ t.hasCells = true → t.isAffixal = true) lines next
    (by decide) fun _ h raw _ ↦ isAffixal_next h raw

theorem read_opening {t : TableOutline} (h : t.isAffixal = true) :
    GrammarLine.read (trim ("TABLE TYPE = " ++ t.type).toList) = .tableType t.type := by
  rw [isAffixal, decide_eq_true_eq, List.mem_cons, List.mem_cons, List.mem_singleton] at h
  rcases h with h | h | h <;> rw [h] <;> decide

end TableOutline

/-! ## The table in hand, as it is -/

namespace GrammarWalk

variable {o : Orthography} {tags : List String} {w w' : GrammarWalk} {raw : String}

/-- What the walk has in hand. -/
def outline (w : GrammarWalk) : TableOutline := ⟨w.state.tableType, !w.state.filed.isEmpty⟩

/-- A cell of a table of affixes is filed, and no other is. -/
theorem outline_readCell {line : String} {path content : List Char}
    (h : w.readCell o line path content = .ok w') :
    w'.outline = ⟨w.outline.type, w.outline.hasCells || w.outline.isAffixal⟩ := by
  rw [readCell, bind_eq_ok] at h
  obtain ⟨declension, -, h⟩ := h
  split at h
  · next htype =>
    obtain ⟨⟨kind, affix⟩, -, h⟩ := bind_eq_ok.1 h
    cases pure_eq_ok.1 h
    have haffixal : w.outline.isAffixal = true := decide_eq_true htype
    have hfiled := w.state.filed_addRule_ne_nil kind ⟨declension, affix⟩
    rw [haffixal, Bool.or_true, outline, List.isEmpty_eq_false_iff.2 hfiled]
    cases kind <;> rfl
  · next htype =>
    have haffixal : w.outline.isAffixal = false := decide_eq_false htype
    rw [haffixal, Bool.or_false]
    split at h
    · split at h
      · cases h
      · split at h
        · cases h
        · cases pure_eq_ok.1 h
          rfl
    · cases pure_eq_ok.1 h
      rfl

/-- **A line tells what it does** to the table in hand. -/
theorem outline_step (h : w.step o tags raw = .ok w') : w'.outline = w.outline.next raw := by
  rw [step] at h
  rw [TableOutline.next]
  dsimp only at h
  split at h
  · next hline =>
    cases h
    rw [hline]
    rfl
  · next hline =>
    cases h
    rw [hline]
    rfl
  · next hline =>
    cases h
    rw [hline]
    cases hfiled : w.state.filed.isEmpty <;> simp [outline, finishTable, TableState.clear, hfiled]
  · next hline =>
    rw [hline]
    exact outline_readCell h
  · next hline =>
    cases h
    rw [hline]

/-- **The lines tell what the table in hand is.** -/
theorem outline_walk {lines : List String} (h : w.walk o tags lines = .ok w') :
    w'.outline = lines.foldl TableOutline.next w.outline := by
  induction lines generalizing w with
  | nil =>
    cases pure_eq_ok.1 h
    rfl
  | cons raw rest ih =>
    rw [walk, List.foldlM_cons, bind_eq_ok] at h
    obtain ⟨next, hnext, h⟩ := h
    rw [ih h, outline_step hnext, List.foldl_cons]

/-! ## Two ends of a table -/

/-- **A part of speech ends a table as an opening line does.** -/
theorem step_opening {tag : String} (hcells : w.outline.hasCells = true)
    (haffixal : w.outline.isAffixal = true)
    (hraw : GrammarLine.read (trim raw.toList) = .partOfSpeech tag) :
    (do let v ← w.step o tags ("TABLE TYPE = " ++ w.outline.type); v.step o tags raw)
      = w.step o tags raw := by
  have hfiled : w.state.filed.isEmpty = false := by simpa [outline] using hcells
  have hopening : w.step o tags ("TABLE TYPE = " ++ w.outline.type)
      = .ok ⟨{ TableState.start with tableType := w.state.tableType },
          w.tables.flush o tags w.state⟩ := by
    rw [step, TableOutline.read_opening haffixal]
    rfl
  rw [hopening]
  show step o tags _ raw = _
  rw [step, step, hraw]
  dsimp only
  rw [hfiled]
  rfl

end GrammarWalk

namespace GrammarTables

/-- **Tables end alike.**  Before a line with a part of speech that ends a table, because an affix
cell has been filed in it, a line may be put that opens a table of the type in force.  The grammar
is compiled to the same tables, or with the same error, whatever follows.  Which type is in force
and whether there is a cell is what the lines before tell, and they tell what a walk that comes so
far has in hand. -/
theorem compile_insert_opening {earlier : List String} {raw tag : String}
    (hcells : (TableOutline.after earlier).hasCells = true)
    (hraw : GrammarLine.read (trim raw.toList) = .partOfSpeech tag)
    (o : Orthography) (partsOfSpeech : StringSet) (later : List String) :
    (∀ w, GrammarWalk.start.walk o (nounTags partsOfSpeech) earlier = .ok w →
      w.outline = TableOutline.after earlier) ∧
    compile o partsOfSpeech
        (earlier ++ ("TABLE TYPE = " ++ (TableOutline.after earlier).type) :: raw :: later)
      = compile o partsOfSpeech (earlier ++ raw :: later) := by
  refine ⟨fun w hwalk ↦ GrammarWalk.outline_walk hwalk, ?_⟩
  rw [compile_append_eq, compile_append_eq]
  cases hwalk : GrammarWalk.start.walk o (nounTags partsOfSpeech) earlier with
  | error e => rfl
  | ok w =>
    have houtline : w.outline = TableOutline.after earlier := GrammarWalk.outline_walk hwalk
    have hstep : (do
          let v ← w.step o (nounTags partsOfSpeech) ("TABLE TYPE = " ++ w.outline.type)
          v.step o (nounTags partsOfSpeech) raw)
        = w.step o (nounTags partsOfSpeech) raw :=
      GrammarWalk.step_opening (houtline ▸ hcells) (houtline ▸ TableOutline.isAffixal_after hcells)
        hraw
    have hsame : w.walk o (nounTags partsOfSpeech)
        (("TABLE TYPE = " ++ (TableOutline.after earlier).type) :: raw :: later)
          = w.walk o (nounTags partsOfSpeech) (raw :: later) := by
      simp only [GrammarWalk.walk, List.foldlM_cons]
      rw [← bind_assoc, ← houtline, hstep]
    show (w.walk o _ (_ :: raw :: later) >>= _) = _
    rw [hsame]
    rfl

/-- The persons of pronouns are known in the new table, and the label of the table before is not. -/
theorem compile_insert_opening_pronouns :
    (TableOutline.after pluralTable).hasCells = true ∧
    GrammarLine.read (trim "part-of-speech = pron".toList) = .partOfSpeech "pron" ∧
    compile plainOrthography (.ofList ["n"])
        (pluralTable ++ ["TABLE TYPE = affix", "part-of-speech = pron", "1 ~ -u", "P ~ -a"])
      = .error (.unmappedDeclension "P" "P ~ -a") := by
  have hcells : (TableOutline.after pluralTable).hasCells = true := by decide
  have hraw : GrammarLine.read (trim "part-of-speech = pron".toList) = .partOfSpeech "pron" := by
    decide
  exact ⟨hcells, hraw, (compile_insert_opening hcells hraw plainOrthography (.ofList ["n"])
    ["1 ~ -u", "P ~ -a"]).2.trans rfl⟩

end GrammarTables

end Glossopoeia
