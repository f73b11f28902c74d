import Glossopoeia.Proofs.GrammarTable.Abbreviations
import Glossopoeia.Proofs.GrammarTable.Filing

/-!
# Cells that are named by abbreviations

The labels of a table stay as its label line lists them until the table ends, but for the persons of
pronouns, which are entered under digits.  So a cell whose path is the abbreviation of a label is
filed under the name of that label, if the words with capitals come first in it.  Other labels are
never found, and a grammar is compiled as if they were not listed: two walks that differ in such
labels alone go on alike (`GrammarWalk.DiffersInLabels`).  `GrammarWalk.step_cell_abbreviate` says
both.
-/

set_option autoImplicit false

namespace Glossopoeia

open Outcome Text

namespace GrammarWalk

variable {o : Orthography} {tags : List String} {v w w' : GrammarWalk} {key raw : String}

/-- A line that lists no labels changes none, but for the persons of pronouns. -/
theorem get?_labels_step (hkey : ∀ c ∈ key.toList, isAsciiDigit c = false)
    (hends : w.endsTable raw = false) (hstep : w.step o tags raw = .ok w')
    (hother : ∀ list, GrammarLine.read (trim raw.toList) ≠ .labels list) :
    w'.state.labels.get? key = w.state.labels.get? key := by
  rw [endsTable] at hends
  rw [step] at hstep
  dsimp only at hstep
  cases hline : GrammarLine.read (trim raw.toList) with
  | tableType type =>
    rw [hline] at hends
    cases hends
  | labels list => exact absurd hline (hother list)
  | partOfSpeech tag =>
    rw [hline, Bool.not_eq_false'] at hends
    rw [hline] at hstep
    dsimp only at hstep
    rw [if_pos hends] at hstep
    cases hstep
    dsimp only
    split
    · exact Labels.get?_addPersons hkey _
    · rfl
  | cell path content =>
    rw [hline] at hstep
    obtain ⟨declension, -, ⟨kind, affix, -, -, rfl⟩ | ⟨_, _, -, -, rfl⟩ | ⟨-, rfl⟩⟩ :=
      of_readCell hstep
    · cases kind <;> rfl
    · rfl
    · rfl
  | other =>
    rw [hline] at hstep
    cases hstep
    rfl

theorem get?_labels_of_readsTable (hkey : ∀ c ∈ key.toList, isAsciiDigit c = false)
    {lines : List String} {cells : List AffixCell} (h : ReadsTable o tags w lines cells w')
    (hother : ∀ line ∈ lines, ∀ list, GrammarLine.read (trim line.toList) ≠ .labels list) :
    w'.state.labels.get? key = w.state.labels.get? key := by
  induction h with
  | nil => rfl
  | cons hends hstep _ ih =>
    obtain ⟨hline, hrest⟩ := List.forall_mem_cons.1 hother
    rw [ih hrest, get?_labels_step hkey hends hstep hline]

/-- The two walks differ in labels at most, and in none that is found. -/
def DiffersInLabels (v w : GrammarWalk) : Prop :=
  ∃ labels, v = ⟨{ w.state with labels := labels }, w.tables⟩ ∧ labels.Agree w.state.labels

theorem DiffersInLabels.addRule (h : v.DiffersInLabels w) (kind : Option AffixKind)
    (rule : DeclensionRule) : DiffersInLabels { v with state := v.state.addRule kind rule }
      { w with state := w.state.addRule kind rule } := by
  obtain ⟨labels, rfl, hagree⟩ := h
  cases kind with
  | none => exact ⟨labels, rfl, hagree⟩
  | some kind => exact ⟨labels, rfl, hagree⟩

theorem DiffersInLabels.alike_step (h : v.DiffersInLabels w) (raw : String) :
    Alike DiffersInLabels (v.step o tags raw) (w.step o tags raw) := by
  have hrule := h.addRule
  obtain ⟨labels, rfl, hagree⟩ := h
  rw [step, step]
  dsimp only
  cases GrammarLine.read (trim raw.toList) with
  | tableType type => exact .ok ⟨_, rfl, fun _ _ _ ↦ rfl⟩
  | labels list => exact .ok ⟨_, rfl, hagree.addAll list⟩
  | partOfSpeech tag =>
    have hpersons {labels labels' : Labels} (h : labels.Agree labels') :
        (if tag = "pron" then labels.addPersons else labels).Agree
          (if tag = "pron" then labels'.addPersons else labels') := by
      split
      · exact h.addPersons
      · exact h
    dsimp only
    cases w.state.filed.isEmpty with
    | true => exact .ok ⟨_, rfl, hpersons hagree⟩
    | false => exact .ok ⟨_, rfl, hpersons fun _ _ _ ↦ rfl⟩
  | cell path content =>
    exact alike_readCell (hagree.resolve path _) rfl rfl ⟨_, rfl, hagree⟩ hrule fun entry ↦
      ⟨_, rfl, hagree⟩
  | other => exact .ok ⟨_, rfl, hagree⟩

theorem step_of_labels {list : List (List Char)}
    (h : GrammarLine.read (trim raw.toList) = .labels list) (w : GrammarWalk) :
    w.step o tags raw
      = .ok ⟨{ w.state with labels := list.foldl Labels.add w.state.labels }, w.tables⟩ := by
  rw [step, h]

/-- Do the lines list these labels, and nothing else? -/
def ListsLabels (lines : List String) (labels : List (List Char)) : Prop :=
  ∃ lists : List (List (List Char)),
    lines.map (fun line ↦ GrammarLine.read (trim line.toList)) = lists.map .labels ∧
      lists.flatten = labels

theorem walk_of_listsLabels {lines : List String} {list : List (List Char)}
    (h : ListsLabels lines list) (o : Orthography) (tags : List String) (w : GrammarWalk) :
    w.walk o tags lines
      = .ok ⟨{ w.state with labels := list.foldl Labels.add w.state.labels }, w.tables⟩ := by
  obtain ⟨lists, hlines, rfl⟩ := h
  induction lines generalizing w lists with
  | nil =>
    obtain rfl := List.map_eq_nil_iff.1 hlines.symm
    rfl
  | cons line lines ih =>
    obtain ⟨labels, lists, rfl, hlabels, hlists⟩ := List.map_eq_cons_iff.1 hlines.symm
    rw [walk, List.foldlM_cons, step_of_labels hlabels.symm, List.flatten_cons, List.foldl_append]
    exact ih _ lists hlists.symm

/-- Labels that are never found make no difference to what follows them. -/
theorem DiffersInLabels.flush_walk (h : v.DiffersInLabels w) (lines : List String) :
    (do let v ← v.walk o tags lines; return v.tables.flush o tags v.state : Except Error _)
      = do let w ← w.walk o tags lines; return w.tables.flush o tags w.state := by
  have hwalk := Alike.foldlM (f := step o tags) (g := step o tags)
    (fun _ _ raw h ↦ h.alike_step raw) lines h
  rw [walk, walk]
  generalize lines.foldlM (step o tags) v = x, lines.foldlM (step o tags) w = y at hwalk ⊢
  cases hwalk with
  | error e => rfl
  | ok h =>
    obtain ⟨labels, rfl, -⟩ := h
    rfl

/-- **A label without a use.**  A grammar is compiled as if a label were not listed, if a word
without capitals comes before one with some in it. -/
theorem compile_erase {label : List Char} (hplain : Labels.IsPlain (trim label))
    (hlead : ¬Labels.CapitalsLead (trim label)) {list : List (List Char)} (hlabel : label ∈ list)
    {directive : String} (hdirective : GrammarLine.read (trim directive.toList) = .labels list)
    {others : List String} (hothers : ListsLabels others (list.erase label)) (o : Orthography)
    (partsOfSpeech : StringSet) (earlier later : List String) :
    GrammarTables.compile o partsOfSpeech (earlier ++ directive :: later)
      = GrammarTables.compile o partsOfSpeech (earlier ++ (others ++ later)) := by
  obtain ⟨before, after, -, hlist, herase⟩ := List.exists_erase_eq hlabel
  have hall : ListsLabels [directive] list :=
    ⟨[list], by rw [List.map_singleton, hdirective]; rfl, List.flatten_singleton ..⟩
  have hdiffers (w : GrammarWalk) : DiffersInLabels
      ⟨{ w.state with labels := list.foldl Labels.add w.state.labels }, w.tables⟩
      ⟨{ w.state with labels := (list.erase label).foldl Labels.add w.state.labels },
        w.tables⟩ := by
    refine ⟨_, rfl, ?_⟩
    rw [herase, hlist, List.foldl_append, List.foldl_append, List.foldl_cons]
    exact (Labels.agree_add hplain hlead _).addAll after
  rw [GrammarTables.compile_append_eq, GrammarTables.compile_append_eq]
  refine congrArg _ (funext fun w ↦ ?_)
  rw [← List.singleton_append, walk, walk, List.foldlM_append, List.foldlM_append, ← walk, ← walk,
    walk_of_listsLabels hall, walk_of_listsLabels hothers]
  exact (hdiffers w).flush_walk later

/-- A cell whose path is the abbreviation of a label is read under the name of the label. -/
theorem step_of_resolve {path content : List Char} {declension : String}
    (htype : w.state.tableType ∈ ["affix", "prefix", "postfix"])
    (hread : GrammarLine.read (trim raw.toList) = .cell path content)
    (hresolve : ∀ line, w.state.labels.resolve path line = .ok declension) :
    w.step o tags raw = (o.compileCell (ruleText content)).map fun (kind, affix) ↦
      ⟨w.state.addRule kind ⟨declension, affix⟩, w.tables⟩ := by
  rw [step, hread]
  dsimp only
  rw [readCell, hresolve]
  dsimp only [bind, Except.bind]
  rw [if_pos htype]
  cases o.compileCell (ruleText content) <;> rfl

/-- **Cells that are named by an abbreviation.**  A table of affixes lists labels in one line, made
of words of letters, and no two of them have one abbreviation.  If the words with capitals of a
label come before those without any, a cell whose path is the abbreviation of the label is read,
and it is filed under the capitalised label as its rule says.  Otherwise the abbreviation is of no
use: a grammar is compiled as it is if the label is not listed. -/
theorem step_cell_abbreviate {partsOfSpeech : StringSet} {directive : String}
    {list : List (List Char)} {lines : List String} {cells : List AffixCell}
    (hreads : ReadsTable o (nounTags partsOfSpeech) w (directive :: lines) cells w')
    (htype : w'.state.tableType ∈ ["affix", "prefix", "postfix"])
    (hdirective : GrammarLine.read (trim directive.toList) = .labels list)
    (hother : ∀ line ∈ lines, ∀ more, GrammarLine.read (trim line.toList) ≠ .labels more)
    (hplain : ∀ label ∈ list, Labels.IsPlain (trim label))
    (hnodup : (list.map fun label ↦ Labels.abbreviate (trim label)).Nodup) {label : List Char}
    (hlabel : label ∈ list) :
    (Labels.CapitalsLead (trim label) → ∀ raw content,
      GrammarLine.read (trim raw.toList) = .cell (Labels.abbreviate (trim label)) content →
        w'.step o (nounTags partsOfSpeech) raw
          = (o.compileCell (ruleText content)).map fun (kind, affix) ↦
              ⟨w'.state.addRule kind ⟨String.ofList (capitalize (trim label)), affix⟩, w'.tables⟩) ∧
    (¬Labels.CapitalsLead (trim label) → ∀ earlier later others,
      ListsLabels others (list.erase label) →
        GrammarTables.compile o partsOfSpeech (earlier ++ directive :: later)
          = GrammarTables.compile o partsOfSpeech (earlier ++ (others ++ later))) := by
  refine ⟨fun hlead raw content hread ↦ step_of_resolve htype hread fun line ↦ ?_,
    fun hlead earlier later others hothers ↦
      compile_erase (hplain label hlabel) hlead hlabel hdirective hothers o _ earlier later⟩
  cases hreads with
  | cons hends hstep hrest =>
    rw [step_of_labels hdirective] at hstep
    cases hstep
    have hkey : ∀ c ∈ (String.ofList (Labels.abbreviate (trim label))).toList,
        isAsciiDigit c = false := by
      rw [String.toList_ofList]
      exact fun c ↦ Labels.isAsciiDigit_eq_false_of_mem_abbreviate (hplain label hlabel)
    have hget := (get?_labels_of_readsTable hkey hrest hother).trans
      (Labels.get?_foldl_add hplain hnodup hlabel w.state.labels)
    exact Labels.resolve_abbreviate (hplain label hlabel) hlead
      (GrammarLine.path_ne_nil_of_read hread) hget line

/-- A table of affixes in which nothing has been read. -/
def affixTable : GrammarWalk := ⟨{ TableState.start with tableType := "affix" }, .empty⟩

/-- Of two labels the first can be named, and the second cannot. -/
theorem step_cell_abbreviate_tenses : ∃ w' cells,
    ReadsTable GrammarTables.plainOrthography (nounTags (.ofList ["v"])) affixTable
      ["cols = Present Tense/the Past"] cells w' ∧
    w'.step GrammarTables.plainOrthography (nounTags (.ofList ["v"])) "P.T ~ -a"
      = .ok ⟨w'.state.addRule (some .back) ⟨"Present tense", .plain "a" "a"⟩, w'.tables⟩ ∧
    ∀ earlier later, GrammarTables.compile GrammarTables.plainOrthography (.ofList ["v"])
        (earlier ++ "cols = Present Tense/the Past" :: later)
      = GrammarTables.compile GrammarTables.plainOrthography (.ofList ["v"])
        (earlier ++ (["cols = Present Tense"] ++ later)) := by
  have hreads : ReadsTable GrammarTables.plainOrthography (nounTags (.ofList ["v"])) affixTable
      ["cols = Present Tense/the Past"] _ _ := .cons rfl rfl (.nil _)
  have hdirective : GrammarLine.read (trim "cols = Present Tense/the Past".toList)
      = .labels ["Present Tense".toList, "the Past".toList] := by decide
  have hplain : ∀ label ∈ ["Present Tense".toList, "the Past".toList],
      Labels.IsPlain (trim label) := by decide
  have hnodup : (["Present Tense".toList, "the Past".toList].map fun label ↦
      Labels.abbreviate (trim label)).Nodup := by decide
  have htype : affixTable.state.tableType ∈ ["affix", "prefix", "postfix"] := by decide
  have hother : ∀ line ∈ ([] : List String), ∀ more,
      GrammarLine.read (trim line.toList) ≠ .labels more := fun _ h ↦ absurd h List.not_mem_nil
  have hpresent := (step_cell_abbreviate hreads htype hdirective hother hplain hnodup
    (List.mem_cons_self ..)).1 (by decide) "P.T ~ -a" " -a".toList (by decide)
  have hpast := (step_cell_abbreviate hreads htype hdirective hother hplain hnodup
    (List.mem_cons_of_mem _ (List.mem_singleton_self _))).2 (by decide)
  refine ⟨_, _, hreads, ?_, fun earlier later ↦ hpast earlier later ["cols = Present Tense"] ?_⟩
  · have hrule : GrammarTables.plainOrthography.compileCell (ruleText " -a".toList)
        = .ok (some .back, .plain "a" "a") := by decide
    have hname : String.ofList (capitalize (trim "Present Tense".toList)) = "Present tense" := by
      decide
    rw [hpresent, hrule, hname]
    rfl
  · exact ⟨[["Present Tense".toList]], by decide, by decide⟩

/-- A label can have a capital, and an abbreviation that no cell can have as its path. -/
theorem not_forall_step_cell_abbreviate :
    ¬ ∀ (o : Orthography) (tags : List String) (w w' : GrammarWalk) (directive : String)
      (list : List (List Char)) (lines : List String) (cells : List AffixCell),
      ReadsTable o tags w (directive :: lines) cells w' →
      w'.state.tableType ∈ ["affix", "prefix", "postfix"] →
      GrammarLine.read (trim directive.toList) = .labels list →
      (∀ line ∈ lines, ∀ more, GrammarLine.read (trim line.toList) ≠ .labels more) →
      (∀ label ∈ list, Labels.IsPlain (trim label) ∧ (trim label).any Labels.isCapital = true) →
      ((list.map fun label ↦ Labels.abbreviate (trim label)).Pairwise fun a b ↦
        ¬a <+: b ∧ ¬b <+: a) →
      ∀ label ∈ list, ∀ raw content,
        GrammarLine.read (trim raw.toList) = .cell (Labels.abbreviate (trim label)) content →
        w'.step o tags raw = (o.compileCell (ruleText content)).map fun (kind, affix) ↦
          ⟨w'.state.addRule kind ⟨String.ofList (capitalize (trim label)), affix⟩, w'.tables⟩ := by
  intro h
  have hreads : ReadsTable GrammarTables.plainOrthography [] affixTable ["cols = the Past"] _ _ :=
    .cons rfl rfl (.nil _)
  have hstep := h _ _ _ _ _ ["the Past".toList] _ _ hreads (by decide) (by decide)
    (fun _ h ↦ absurd h List.not_mem_nil) (by decide) (List.pairwise_singleton ..)
    "the Past".toList (List.mem_singleton_self _) ".P ~ -d" " -d".toList (by decide)
  have hrule : GrammarTables.plainOrthography.compileCell (ruleText " -d".toList)
      = .ok (some .back, .plain "d" "d") := by decide
  rw [hrule] at hstep
  cases hstep

end GrammarWalk

end Glossopoeia
