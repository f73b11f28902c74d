import Glossopoeia.GrammarTable.Walk
import Glossopoeia.Proofs.Dictionary
import Glossopoeia.Proofs.Outcome

/-!
# Grammars one after the other

A line that opens a table ends the table before it, and nothing of that one is left: not its type,
nor its part of speech, labels, buckets or the kind of its latest rule.  So a grammar whose first
line opens a table can be put behind any other grammar, and either defines what it defines alone
(`GrammarTables.compile_append`).

Two walks are compared: one over the second grammar alone, and one that has read the first grammar
before.  After the opening line both have the same table in hand, and what the one has finished
stands in the other behind what the first grammar defines (`GrammarTables.IsAppend`).  Each line
keeps this, or both walks fail in it with the same error, since errors depend on the table in hand
alone.
-/

set_option autoImplicit false

namespace Glossopoeia

open Outcome Text

/-! ## Tables behind tables -/

namespace GrammarTables

/-- Is `all` what `earlier` and `later` define together?  The entries of the later stand behind
those of the earlier, and so do the slots under each part of speech that one of them knows. -/
structure IsAppend (earlier later all : GrammarTables) : Prop where
  /-- The entries. -/
  entries : all.entries = earlier.entries ++ later.entries
  /-- The slots of a part of speech. -/
  slots : ∀ pos, all.affixMap.get? pos
    = (earlier.affixMap.get? pos).merge (· ++ ·) (later.affixMap.get? pos)

variable {earlier later all : GrammarTables}

theorem isAppend_empty (tables : GrammarTables) : IsAppend tables empty tables where
  entries := (List.append_nil _).symm
  slots := fun pos ↦ by
    have hnone : empty.affixMap.get? pos = none := rfl
    rw [hnone]
    cases tables.affixMap.get? pos <;> rfl

/-- Slots are put at the end, so it does not matter what stands before them. -/
theorem IsAppend.alter (h : IsAppend earlier later all) (target : String)
    (more : List AffixSlot) :
    IsAppend earlier
      { later with affixMap := later.affixMap.alter target fun slots ↦ slots.getD [] ++ more }
      { all with affixMap := all.affixMap.alter target fun slots ↦ slots.getD [] ++ more } where
  entries := h.entries
  slots := fun pos ↦ by
    rw [Dictionary.get?_alter, Dictionary.get?_alter, h.slots, h.slots]
    by_cases hpos : pos = target
    · subst hpos
      rw [if_pos rfl, if_pos rfl]
      cases earlier.affixMap.get? pos <;> cases later.affixMap.get? pos <;> simp
    · rw [if_neg hpos, if_neg hpos]

/-- The same slots are put under several parts of speech. -/
theorem IsAppend.alterAll (h : IsAppend earlier later all) (targets : List String)
    (more : List AffixSlot) :
    IsAppend earlier
      { later with affixMap := (targets.foldl (fun map target ↦
          map.alter target fun slots ↦ slots.getD [] ++ more) later.affixMap) }
      { all with affixMap := (targets.foldl (fun map target ↦
          map.alter target fun slots ↦ slots.getD [] ++ more) all.affixMap) } := by
  induction targets generalizing later all with
  | nil => exact h
  | cons target rest ih => exact ih (h.alter target more)

theorem IsAppend.addEntries (h : IsAppend earlier later all) (more : List LexiconEntry) :
    IsAppend earlier { later with entries := later.entries ++ more }
      { all with entries := all.entries ++ more } where
  entries := by rw [h.entries, List.append_assoc]
  slots := h.slots

theorem IsAppend.addBucket (h : IsAppend earlier later all) (o : Orthography)
    (targets : List String) (entry : Bucket × List DeclensionRule) :
    IsAppend earlier (later.addBucket o targets entry.1 entry.2)
      (all.addBucket o targets entry.1 entry.2) := by
  rw [GrammarTables.addBucket, GrammarTables.addBucket]
  split
  · exact h.addEntries _
  · exact h.alterAll targets _

theorem IsAppend.addBuckets (h : IsAppend earlier later all) (o : Orthography)
    (targets : List String) (filed : List (Bucket × List DeclensionRule)) :
    IsAppend earlier
      (filed.foldl (fun tables (bucket, rules) ↦ tables.addBucket o targets bucket rules) later)
      (filed.foldl (fun tables (bucket, rules) ↦ tables.addBucket o targets bucket rules) all) := by
  induction filed generalizing later all with
  | nil => exact h
  | cons entry rest ih => exact ih (h.addBucket o targets entry)

/-- A finished table goes to the end. -/
theorem IsAppend.flush (h : IsAppend earlier later all) (o : Orthography) (nounTags : List String)
    (s : TableState) :
    IsAppend earlier (later.flush o nounTags s) (all.flush o nounTags s) := by
  rw [GrammarTables.flush, GrammarTables.flush]
  split
  · exact h
  · have hknown := h.alterAll (targets nounTags s.partOfSpeech) []
    simp only [List.append_nil] at hknown
    exact hknown.addBuckets o _ s.filed

end GrammarTables

/-! ## Walks behind other walks -/

namespace GrammarWalk

/-- Has the walk `all` the same table in hand as the walk `later`, and the tables of that one behind
some others? -/
structure Follows (earlier : GrammarTables) (later all : GrammarWalk) : Prop where
  /-- The table in hand. -/
  state : all.state = later.state
  /-- The tables before it. -/
  tables : earlier.IsAppend later.tables all.tables

variable {earlier : GrammarTables} {later all : GrammarWalk} {o : Orthography}
  {nounTags : List String}

theorem Follows.finishTable (h : Follows earlier later all) :
    Follows earlier (later.finishTable o nounTags) (all.finishTable o nounTags) where
  state := congrArg TableState.clear h.state
  tables := by
    rw [GrammarWalk.finishTable, GrammarWalk.finishTable, h.state]
    exact h.tables.flush o nounTags later.state

theorem Follows.withState (h : Follows earlier later all) (s : TableState) :
    Follows earlier { later with state := s } { all with state := s } := ⟨rfl, h.tables⟩

/-- A cell is read alike in two tables of one type and part of speech that resolve its path
alike. -/
theorem alike_readCell {R : GrammarWalk → GrammarWalk → Prop} {v w : GrammarWalk} {line : String}
    {path content : List Char}
    (hresolve : v.state.labels.resolve path line = w.state.labels.resolve path line)
    (htype : v.state.tableType = w.state.tableType)
    (hpartOfSpeech : v.state.partOfSpeech = w.state.partOfSpeech) (hkept : R v w)
    (hrule : ∀ kind rule, R { v with state := v.state.addRule kind rule }
      { w with state := w.state.addRule kind rule })
    (hentry : ∀ entry,
      R { v with tables := { v.tables with entries := v.tables.entries ++ [entry] } }
        { w with tables := { w.tables with entries := w.tables.entries ++ [entry] } }) :
    Alike R (v.readCell o line path content) (w.readCell o line path content) := by
  rw [GrammarWalk.readCell, GrammarWalk.readCell, hresolve, htype, hpartOfSpeech]
  refine (Alike.refl _).bind ?_
  rintro declension _ rfl
  split
  · refine (Alike.refl _).bind ?_
    rintro ⟨kind, affix⟩ _ rfl
    exact .ok (hrule kind ⟨declension, affix⟩)
  · split
    · split
      · exact .error _
      · split
        · exact .error _
        · exact .ok (hentry _)
    · exact .ok hkept

theorem Follows.readCell (h : Follows earlier later all) (line : String)
    (path content : List Char) :
    Alike (Follows earlier) (later.readCell o line path content)
      (all.readCell o line path content) := by
  refine alike_readCell (by rw [h.state]) (by rw [h.state]) (by rw [h.state]) h ?_ fun entry ↦
    ⟨h.state, h.tables.addEntries _⟩
  intro kind rule
  rw [h.state]
  exact h.withState _

theorem Follows.step (h : Follows earlier later all) (raw : String) :
    Alike (Follows earlier) (later.step o nounTags raw) (all.step o nounTags raw) := by
  have hfinish : Follows earlier (later.finishTable o nounTags) (all.finishTable o nounTags) :=
    h.finishTable
  rw [GrammarWalk.step, GrammarWalk.step]
  dsimp only
  split
  · rw [hfinish.state]
    exact .ok (hfinish.withState _)
  · rw [h.state]
    exact .ok (h.withState _)
  · have hnext : Follows earlier
        (if later.state.filed.isEmpty then later else later.finishTable o nounTags)
        (if all.state.filed.isEmpty then all else all.finishTable o nounTags) := by
      rw [h.state]
      split
      · exact h
      · exact hfinish
    rw [hnext.state]
    exact .ok (hnext.withState _)
  · exact h.readCell _ _ _
  · exact .ok h

/-- An opening line begins a new table whatever the table before it was. -/
theorem step_of_opens (o : Orthography) (nounTags : List String) {raw : String}
    (h : GrammarLine.opensWith "TABLE TYPE" (trim raw.toList) = true) :
    ∃ type, ∀ w : GrammarWalk, w.step o nounTags raw
      = .ok ⟨{ TableState.start with tableType := type }, w.tables.flush o nounTags w.state⟩ := by
  refine ⟨String.ofList (GrammarLine.valueOf (trim raw.toList)), fun w ↦ ?_⟩
  rw [GrammarWalk.step, GrammarLine.read, if_pos h]
  rfl

end GrammarWalk

/-! ## Grammars -/

namespace GrammarTables

variable (o : Orthography) (partsOfSpeech : StringSet)

/-- A grammar that opens a table is read behind another as it is read alone. -/
theorem alike_compile (w : GrammarWalk) {lines : List String}
    (h : ∀ line ∈ lines.head?, GrammarLine.opensWith "TABLE TYPE" (trim line.toList) = true) :
    Alike (w.tables.flush o (nounTags partsOfSpeech) w.state).IsAppend
      (compile o partsOfSpeech lines) (do
        let w ← w.walk o (nounTags partsOfSpeech) lines
        return w.tables.flush o (nounTags partsOfSpeech) w.state) := by
  cases lines with
  | nil => exact .ok (isAppend_empty _)
  | cons line rest =>
    obtain ⟨type, hstep⟩ := GrammarWalk.step_of_opens o (nounTags partsOfSpeech) (h line rfl)
    have hfollows : GrammarWalk.Follows (w.tables.flush o (nounTags partsOfSpeech) w.state)
        ⟨{ TableState.start with tableType := type }, empty⟩
        ⟨{ TableState.start with tableType := type },
          w.tables.flush o (nounTags partsOfSpeech) w.state⟩ := ⟨rfl, isAppend_empty _⟩
    rw [compile, GrammarWalk.walk, GrammarWalk.walk, List.foldlM_cons, List.foldlM_cons, hstep,
      hstep]
    refine (Alike.foldlM (fun _ _ raw h ↦ h.step raw) rest hfollows).bind fun v v' hv ↦ ?_
    rw [hv.state]
    exact .ok (hv.tables.flush o _ v.state)

/-- The first of two grammars is read as it is alone. -/
theorem compile_append_eq (first second : List String) :
    compile o partsOfSpeech (first ++ second) = (do
      let w ← GrammarWalk.start.walk o (nounTags partsOfSpeech) first
      let w ← w.walk o (nounTags partsOfSpeech) second
      return w.tables.flush o (nounTags partsOfSpeech) w.state) := by
  simp only [compile, GrammarWalk.walk, List.foldlM_append, bind_assoc]

/-- **A grammar that opens a table can be put behind any other.**  What is wrong with the first is
reported before what is wrong with the second.  If nothing is, the entries of the first stand before
those of the second, and so do the slots under each part of speech. -/
theorem compile_append (first second : List String)
    (h : ∀ line ∈ second.head?, GrammarLine.opensWith "TABLE TYPE" (trim line.toList) = true) :
    (∀ e, compile o partsOfSpeech first = .error e →
      compile o partsOfSpeech (first ++ second) = .error e) ∧
    ∀ earlier, compile o partsOfSpeech first = .ok earlier →
      Alike earlier.IsAppend (compile o partsOfSpeech second)
        (compile o partsOfSpeech (first ++ second)) := by
  rw [compile_append_eq, compile.eq_def o partsOfSpeech first]
  dsimp only
  cases GrammarWalk.start.walk o (nounTags partsOfSpeech) first with
  | error e => exact ⟨fun _ he ↦ by cases he; rfl, fun _ hearlier ↦ nomatch hearlier⟩
  | ok w =>
    refine ⟨fun _ he ↦ (nomatch he), fun earlier hearlier ↦ ?_⟩
    cases hearlier
    exact alike_compile o partsOfSpeech w h

/-- A language that is spelled as it sounds. -/
def plainOrthography : Orthography := ⟨.ofSpelled [], .ofSpelled [], ⟨[]⟩⟩

/-- A table of suffixes, which is not finished. -/
def pluralTable : List String :=
  ["TABLE TYPE = affix", "part-of-speech = n", "cols = Plural", "P ~ -i"]

/-- A table that opens with an empty cell. -/
def dualTable : List String :=
  [" TABLE TYPE = affix", "part-of-speech = n", "cols = Half/Dual", "H ~ -", "D ~ o-"]

/-- The empty cell does not follow the suffixes of the table before. -/
theorem compile_append_dualTable :
    (∀ line ∈ dualTable.head?, GrammarLine.opensWith "TABLE TYPE" (trim line.toList) = true) ∧
    ∃ earlier later all, compile plainOrthography (.ofList ["n"]) pluralTable = .ok earlier ∧
      compile plainOrthography (.ofList ["n"]) dualTable = .ok later ∧
      compile plainOrthography (.ofList ["n"]) (pluralTable ++ dualTable) = .ok all ∧
      earlier.IsAppend later all ∧
      all.affixMap.get? "n" = some [⟨.back, [⟨"Plural", .plain "i" "i"⟩]⟩,
        ⟨.front, [⟨"Half", .empty⟩, ⟨"Dual", .plain "o" "o"⟩]⟩] := by
  have hopens : ∀ line ∈ dualTable.head?,
      GrammarLine.opensWith "TABLE TYPE" (trim line.toList) = true := by
    rintro line ⟨⟩
    decide
  obtain ⟨earlier, hearlier, hplural⟩ : ∃ tables,
      compile plainOrthography (.ofList ["n"]) pluralTable = .ok tables ∧
        tables.affixMap.get? "n" = some [⟨.back, [⟨"Plural", .plain "i" "i"⟩]⟩] :=
    ⟨_, rfl, by decide⟩
  obtain ⟨later, hlater, hdual⟩ : ∃ tables,
      compile plainOrthography (.ofList ["n"]) dualTable = .ok tables ∧
        tables.affixMap.get? "n"
          = some [⟨.front, [⟨"Half", .empty⟩, ⟨"Dual", .plain "o" "o"⟩]⟩] :=
    ⟨_, rfl, by decide⟩
  have halike := (compile_append plainOrthography (.ofList ["n"]) pluralTable dualTable hopens).2
    earlier hearlier
  rw [hlater] at halike
  generalize hall : compile plainOrthography (.ofList ["n"]) (pluralTable ++ dualTable) = both
    at halike
  cases halike with
  | ok happend =>
    refine ⟨hopens, earlier, later, _, hearlier, hlater, rfl, happend, ?_⟩
    rw [happend.slots, hplural, hdual]
    rfl

end GrammarTables

end Glossopoeia
