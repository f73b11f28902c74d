import Glossopoeia.Language.Upkeep
import Glossopoeia.Proofs.Language.Words

/-!
# What upkeep keeps

The four operations on a finished document are one operation with four ways to find the entries that
are to be in the lexicon afterwards.  `Upkeep.run_eq` says so: an operation fails before it has
touched the document, or it leaves the tidied entries and its mark and nothing else.  Everything
below is read off that equation and `Upkeep.collected`.

A document is *tidy* if its lexicon has no two entries of one value and is in the order of its own
alphabet, and its *flags hold* if a lexicon that is said to have no declined or no derived entries
has none.  Both are there after a build, and each operation keeps them.

An operation that adds what is there already adds nothing.  So it is with a second declension
(`decline_decline`): the forms that it makes are among those of the first one, whatever order the
document was in before.
-/

set_option autoImplicit false

namespace Glossopoeia

open LexiconEntry Outcome

/-! ## One operation -/

namespace Upkeep

/-- The entries that an operation leaves, before they are tidied. -/
def collected : Upkeep → Language → Except Error (List LexiconEntry)
  | decline, l => l.declinedWords.map (l.lexicon ++ ·)
  | derive, l => l.derivedFamilies.map (l.lexicon ++ ·)
  | removeDeclined, l => .ok (l.lexicon.filter fun e ↦ !e.declined)
  | removeDerived, l => .ok (l.lexicon.filter fun e ↦ !e.derived)

/-- The number of an operation, from the sizes of the lexicon before and after it. -/
def count : Upkeep → Nat → Nat → Nat
  | decline, before, after => after - before
  | derive, before, after => after - before
  | removeDeclined, before, after => before - after
  | removeDerived, before, after => before - after

/-- **What an operation does**: nothing if it fails, and otherwise it leaves the tidied entries and
its mark. -/
theorem run_eq (op : Upkeep) (l : Language) :
    op.run l = match op.collected l with
      | .error e => (.error e, l)
      | .ok entries =>
        (.ok (op.count l.lexicon.length (l.tidy entries).length),
          { op.mark l with lexicon := l.tidy entries }) := by
  cases op with
  | decline =>
    have hwork : decline.run l = Change.perform
        (liftExcept l.declinedWords >>= fun forms ↦ Language.addEntries forms decline.mark) l := rfl
    rw [hwork, collected]
    cases l.declinedWords <;> rfl
  | derive =>
    have hwork : derive.run l = Change.perform
        (liftExcept l.derivedFamilies >>= fun new ↦ Language.addEntries new derive.mark) l := rfl
    rw [hwork, collected]
    cases l.derivedFamilies <;> rfl
  | removeDeclined => rfl
  | removeDerived => rfl

theorem run_eq_error {op : Upkeep} {l l' : Language} {e : Error} :
    op.run l = (.error e, l') ↔ op.collected l = .error e ∧ l' = l := by
  rw [run_eq]
  cases op.collected l with
  | error e' =>
    constructor
    · intro h
      obtain ⟨he, hl⟩ := Prod.mk.inj h
      cases he
      exact ⟨rfl, hl.symm⟩
    · rintro ⟨h, rfl⟩
      cases h
      rfl
  | ok entries => exact ⟨fun h ↦ (nomatch (Prod.mk.inj h).1), fun ⟨h, _⟩ ↦ nomatch h⟩

theorem run_eq_ok {op : Upkeep} {l l' : Language} {n : Nat} :
    op.run l = (.ok n, l') ↔
      ∃ entries, op.collected l = .ok entries ∧
        n = op.count l.lexicon.length (l.tidy entries).length ∧
          l' = { op.mark l with lexicon := l.tidy entries } := by
  rw [run_eq]
  cases op.collected l with
  | error e => exact ⟨fun h ↦ (nomatch (Prod.mk.inj h).1), fun ⟨_, h, _⟩ ↦ nomatch h⟩
  | ok entries =>
    constructor
    · intro h
      obtain ⟨hn, hl⟩ := Prod.mk.inj h
      exact ⟨entries, rfl, (Except.ok.inj hn).symm, hl.symm⟩
    · rintro ⟨_, h, rfl, rfl⟩
      cases h
      rfl

theorem derive_run_eq_ok {l : Language} {roots : List LexiconEntry}
    (h : l.derivedFamilies = .ok roots) :
    derive.run l = (.ok ((l.tidy (l.lexicon ++ roots)).length - l.lexicon.length),
      { l with derived := true, lexicon := l.tidy (l.lexicon ++ roots) }) := by
  refine run_eq_ok.2 ⟨l.lexicon ++ roots, ?_, rfl, rfl⟩
  rw [collected, h]
  rfl

/-- The documents are alike but for the lexicon and the operation's own flag. -/
def ChangesOnlyOwn : Upkeep → Language → Language → Prop
  | decline, l, l' => l' = { l with lexicon := l'.lexicon, declined := true }
  | derive, l, l' => l' = { l with lexicon := l'.lexicon, derived := true }
  | removeDeclined, l, l' => l' = { l with lexicon := l'.lexicon, declined := false }
  | removeDerived, l, l' => l' = { l with lexicon := l'.lexicon, derived := false }

theorem changesOnlyOwn_of_run {op : Upkeep} {l l' : Language} {n : Nat}
    (h : op.run l = (.ok n, l')) : op.ChangesOnlyOwn l l' := by
  obtain ⟨_, _, _, rfl⟩ := run_eq_ok.1 h
  cases op <;> rfl

/-- The document after operations, one after the other, whether or not they fail. -/
def runAll (ops : List Upkeep) (l : Language) : Language := ops.foldl (fun l op ↦ (op.run l).2) l

end Upkeep

/-! ## Tidy documents -/

/-- The lexicon of the document has each value once and is in the order of the document's own
alphabet. -/
structure Language.IsTidy (l : Language) : Prop where
  /-- No two entries have the same value. -/
  distinct : l.lexicon.Pairwise fun a b ↦ a.sameValue b = false
  /-- No entry comes after one that is spelled before it. -/
  ordered : l.lexicon.Pairwise fun a b ↦
    (LexicalOrder.mk l.lexicalOrder).compareSpelled a.spelled b.spelled ≠ .gt

namespace Language

/-- A document is tidy if its lexicon is what tidying makes. -/
theorem isTidy_of_lexicon_eq {l : Language} {entries : List LexiconEntry}
    (h : l.lexicon = (LexicalOrder.mk l.lexicalOrder).sortEntries (dedupLexicon entries)) :
    l.IsTidy where
  distinct := by
    rw [pairwise_sameValue_iff, h]
    exact nodup_tidied _ entries
  ordered := by
    rw [h]
    exact LexicalOrder.pairwise_sortEntries _ _

theorem isTidy_of_run {op : Upkeep} {l l' : Language} {n : Nat} (h : op.run l = (.ok n, l')) :
    l'.IsTidy := by
  obtain ⟨entries, _, _, rfl⟩ := Upkeep.run_eq_ok.1 h
  cases op <;> exact isTidy_of_lexicon_eq rfl

theorem isTidy_of_buildLanguage {save : Json} {o : BuildOptions} {l : Language}
    (h : buildLanguage save o = .ok l) : l.IsTidy := by
  obtain ⟨s, b, entries, _, _, rfl⟩ := buildLanguage_eq_ok.1 h
  exact isTidy_of_lexicon_eq rfl

/-- A tidy document has nothing to tidy. -/
theorem IsTidy.tidy_lexicon {l : Language} (h : l.IsTidy) : l.tidy l.lexicon = l.lexicon := by
  rw [tidy, dedupLexicon_of_nodup (pairwise_sameValue_iff.1 h.distinct)]
  exact LexicalOrder.sortEntries_of_pairwise _ h.ordered

/-- **Added entries can be told from the lexicon they were added to.**  If the lexicon is tidy, then
dropping them gives it back as it was: none of its entries gave way to an added one of the same
value, and none has moved past another. -/
theorem IsTidy.filter_tidy_append {l : Language} (h : l.IsTidy) {p : LexiconEntry → Bool}
    (hp : ∀ e ∈ l.lexicon, p e = true) {added : List LexiconEntry}
    (hadded : ∀ e ∈ added, p e = false) : (l.tidy (l.lexicon ++ added)).filter p = l.lexicon :=
  (filter_tidied_append _ hp hadded).trans h.tidy_lexicon

end Language

/-! ## What the flags say -/

/-- A document that is said to have no declined or no derived entries has none. -/
structure Language.FlagsHold (l : Language) : Prop where
  /-- There are no declined entries unless the document says so. -/
  declined : l.declined = false → ∀ e ∈ l.lexicon, e.declined = false
  /-- There are no derived entries unless the document says so. -/
  derived : l.derived = false → ∀ e ∈ l.lexicon, e.derived = false

namespace Language

theorem flagsHold_of_buildLanguage {save : Json} {o : BuildOptions} {l : Language}
    (h : buildLanguage save o = .ok l) : l.FlagsHold := by
  obtain ⟨s, b, entries, hb, hentries, rfl⟩ := buildLanguage_eq_ok.1 h
  refine ⟨fun hdeclined e he ↦ ?_, fun hderived e he ↦ ?_⟩
  · exact Blueprint.not_declined_of_mem_collected hb hdeclined hentries e
      (mem_of_mem_tidied b.order he)
  · exact Blueprint.not_derived_of_mem_collected hb hderived hentries e
      (mem_of_mem_tidied b.order he)

/-- The forms that are added to a document are those of its words, made by its own slots and spelled
as its own sound map has it. -/
theorem declinedWords_eq_ok {l : Language} {forms : List LexiconEntry} :
    l.declinedWords = .ok forms ↔ ∃ speller decliner, Speller.ofSoundMap l.soundMap = .ok speller ∧
      Decliner.ofAffixMap l.affixMap speller = .ok decliner ∧
        Blueprint.declinedForms decliner l.lexicon = forms := by
  rw [declinedWords]
  simp only [bind_eq_ok, pure_eq_ok]
  constructor
  · rintro ⟨speller, hspeller, decliner, hdecliner, hforms⟩
    exact ⟨speller, decliner, hspeller, hdecliner, hforms⟩
  · rintro ⟨speller, decliner, hspeller, hdecliner, hforms⟩
    exact ⟨speller, hspeller, decliner, hdecliner, hforms⟩

/-- The forms that are added to a document are declined, and derived only if a word of it is. -/
theorem provenance_of_mem_declinedWords {l : Language} {forms : List LexiconEntry}
    (hforms : l.declinedWords = .ok forms) :
    ∀ f ∈ forms, f.declined = true ∧ ∃ e ∈ l.lexicon, e.derived = f.derived := by
  obtain ⟨_, _, _, _, rfl⟩ := declinedWords_eq_ok.1 hforms
  exact fun f hf ↦ Blueprint.provenance_of_mem_declinedForms hf

/-- The words that are added to a document are declined only if the document is. -/
theorem declined_of_mem_derivedFamilies {l : Language} {words : List LexiconEntry}
    (hwords : l.derivedFamilies = .ok words) (hdeclined : l.declined = false) :
    ∀ e ∈ words, e.declined = false := by
  rw [derivedFamilies, bind_eq_ok, hdeclined] at hwords
  obtain ⟨speller, _, hwords⟩ := hwords
  exact fun e he ↦ (mem_deriveWords hwords e he).2

/-- **An operation keeps the flags true.**  One that adds entries of a kind says so, and what it
adds is of the other kind only if the document has entries of that kind already. -/
theorem FlagsHold.run {l : Language} (h : l.FlagsHold) (op : Upkeep) : (op.run l).2.FlagsHold := by
  rw [Upkeep.run_eq]
  cases hentries : op.collected l with
  | error e => exact h
  | ok entries =>
    cases op with
    | decline =>
      obtain ⟨forms, hforms, rfl⟩ := map_eq_ok.1 hentries
      refine ⟨fun hdeclined ↦ (nomatch hdeclined), fun hderived e he ↦ ?_⟩
      rcases List.mem_append.1 (mem_of_mem_tidied _ he) with he | he
      · exact h.derived hderived e he
      · obtain ⟨_, word, hword, hsame⟩ := provenance_of_mem_declinedWords hforms e he
        exact hsame ▸ h.derived hderived word hword
    | derive =>
      obtain ⟨words, hwords, rfl⟩ := map_eq_ok.1 hentries
      refine ⟨fun hdeclined e he ↦ ?_, fun hderived ↦ nomatch hderived⟩
      rcases List.mem_append.1 (mem_of_mem_tidied _ he) with he | he
      · exact h.declined hdeclined e he
      · exact declined_of_mem_derivedFamilies hwords hdeclined e he
    | removeDeclined =>
      cases hentries
      refine ⟨fun _ e he ↦ ?_, fun hderived e he ↦ ?_⟩
      · simpa using List.of_mem_filter (mem_of_mem_tidied _ he)
      · exact h.derived hderived e (List.mem_of_mem_filter (mem_of_mem_tidied _ he))
    | removeDerived =>
      cases hentries
      refine ⟨fun hdeclined e he ↦ ?_, fun _ e he ↦ ?_⟩
      · exact h.declined hdeclined e (List.mem_of_mem_filter (mem_of_mem_tidied _ he))
      · simpa using List.of_mem_filter (mem_of_mem_tidied _ he)

theorem FlagsHold.runAll {l : Language} (h : l.FlagsHold) (ops : List Upkeep) :
    (Upkeep.runAll ops l).FlagsHold := by
  induction ops generalizing l with
  | nil => exact h
  | cons op ops ih => exact ih (h.run op)

end Language

/-- **Upkeep is safe.**  An operation that fails leaves the document alone; one that succeeds leaves
it tidy and changes nothing but the lexicon and its own flag.  And however a built document is kept
up, its flags hold. -/
theorem upkeep_isSafe :
    (∀ (op : Upkeep) (l l' : Language),
      (∀ e, op.run l = (.error e, l') → l' = l) ∧
        ∀ n, op.run l = (.ok n, l') → l'.IsTidy ∧ op.ChangesOnlyOwn l l') ∧
    ∀ (save : Json) (o : BuildOptions) (l : Language) (ops : List Upkeep),
      buildLanguage save o = .ok l → (Upkeep.runAll ops l).FlagsHold := by
  refine ⟨fun op l l' ↦ ⟨fun e h ↦ ?_, fun n h ↦ ⟨?_, ?_⟩⟩, fun save o l ops h ↦ ?_⟩
  · exact (Upkeep.run_eq_error.1 h).2
  · exact Language.isTidy_of_run h
  · exact Upkeep.changesOnlyOwn_of_run h
  · exact (Language.flagsHold_of_buildLanguage h).runAll ops

/-- A document with two nouns that have a plural, and with a derivation that lacks its right
side. -/
def twoNouns : Language :=
  { Language.blank with
    lexicalOrder := (LexicalOrder.ofAlphabet "").letters
    affixMap := Dictionary.empty.insert "n" [⟨.back, [⟨"pl", .plain "i" "i"⟩]⟩]
    lexicon := [LexiconEntry.root "ka" "ka" "house" "n", LexiconEntry.root "to" "to" "tree" "n"]
    derivedWords := ["village : n"] }

theorem twoNouns_decline : ∃ k l', Upkeep.decline.run twoNouns = (.ok k, l') := by
  have hok : (Upkeep.decline.run twoNouns).1.isOk = true := by decide
  obtain ⟨k, hk⟩ := exists_eq_ok_of_isOk hok
  exact ⟨k, _, Prod.ext hk rfl⟩

theorem upkeep_isSafe_twoNouns :
    (∃ l', Upkeep.derive.run twoNouns = (.error (.malformedDerivation "village : n"), l') ∧
      l' = twoNouns) ∧
    (∃ n l', Upkeep.decline.run twoNouns = (.ok n, l') ∧ l'.IsTidy ∧
      Upkeep.decline.ChangesOnlyOwn twoNouns l') ∧
    ∃ l, buildLanguage homeSave .default = .ok l ∧
      (Upkeep.runAll [.decline, .removeDerived, .derive] l).FlagsHold := by
  have hderive : Upkeep.derive.run twoNouns
      = (.error (.malformedDerivation "village : n"), twoNouns) := rfl
  obtain ⟨n, l', hdecline⟩ := twoNouns_decline
  obtain ⟨l, hl⟩ := exists_buildLanguage_homeSave
  exact ⟨⟨_, hderive, (upkeep_isSafe.1 _ _ _).1 _ hderive⟩,
    ⟨n, l', hdecline, (upkeep_isSafe.1 _ _ _).2 n hdecline⟩, l, hl, upkeep_isSafe.2 _ _ l _ hl⟩

/-! ## Undoing a declension -/

/-- **Removing the declined forms undoes a declension**, with the same number, if the document was
tidy and not declined before, as it is after a build without declension. -/
theorem removeDeclined_decline :
    (∀ (l l' : Language) (k : Nat), l.IsTidy → (∀ e ∈ l.lexicon, e.declined = false) →
      l.declined = false → Upkeep.decline.run l = (.ok k, l') →
        Upkeep.removeDeclined.run l' = (.ok k, l)) ∧
    ∀ (save : Json) (o : BuildOptions) (l : Language), o.decline = false →
      buildLanguage save o = .ok l →
        l.IsTidy ∧ (∀ e ∈ l.lexicon, e.declined = false) ∧ l.declined = false := by
  constructor
  · intro l l' k htidy hplain hflag hrun
    obtain ⟨_, hentries, rfl, rfl⟩ := Upkeep.run_eq_ok.1 hrun
    obtain ⟨forms, hforms, rfl⟩ := map_eq_ok.1 hentries
    have hkept : (l.tidy (l.lexicon ++ forms)).filter (fun e ↦ !e.declined) = l.lexicon := by
      refine htidy.filter_tidy_append (fun e he ↦ ?_) fun f hf ↦ ?_
      · rw [hplain e he, Bool.not_false]
      · rw [(Language.provenance_of_mem_declinedWords hforms f hf).1, Bool.not_true]
    refine Upkeep.run_eq_ok.2 ⟨l.lexicon, congrArg Except.ok hkept, ?_, ?_⟩
    · show _ = (l.tidy (l.lexicon ++ forms)).length - (l.tidy l.lexicon).length
      rw [htidy.tidy_lexicon]
      rfl
    · show l = { l with declined := false, lexicon := l.tidy l.lexicon }
      rw [htidy.tidy_lexicon, ← hflag]
  · intro save o l hdecline h
    have hflag : l.declined = false := by
      obtain ⟨s, b, entries, _, _, rfl⟩ := buildLanguage_eq_ok.1 h
      exact hdecline
    exact ⟨Language.isTidy_of_buildLanguage h,
      (Language.flagsHold_of_buildLanguage h).declined hflag, hflag⟩

theorem removeDeclined_decline_twoNouns :
    (∃ k l', Upkeep.decline.run twoNouns = (.ok k, l') ∧
      Upkeep.removeDeclined.run l' = (.ok k, twoNouns)) ∧
    ∃ l, buildLanguage homeSave .default = .ok l ∧
      l.IsTidy ∧ (∀ e ∈ l.lexicon, e.declined = false) ∧ l.declined = false := by
  have htidy : twoNouns.IsTidy := ⟨by decide +kernel, by decide +kernel⟩
  obtain ⟨k, l', hrun⟩ := twoNouns_decline
  obtain ⟨l, hl⟩ := exists_buildLanguage_homeSave
  exact ⟨⟨k, l', hrun, removeDeclined_decline.1 _ _ k htidy (by decide) rfl hrun⟩,
    l, hl, removeDeclined_decline.2 _ _ l rfl hl⟩

/-! ## Declining again -/

/-- The words of a declined document have no forms but those that it has already. -/
theorem Language.declinedWords_declined {l : Language} {forms : List LexiconEntry}
    (hforms : l.declinedWords = .ok forms) :
    ∃ again, Language.declinedWords { l with
        declined := true, lexicon := l.tidy (l.lexicon ++ forms) } = .ok again ∧
      again ⊆ forms := by
  obtain ⟨speller, decliner, hspeller, hdecliner, rfl⟩ := declinedWords_eq_ok.1 hforms
  refine ⟨_, declinedWords_eq_ok.2 ⟨speller, decliner, hspeller, hdecliner, rfl⟩,
    Blueprint.declinedForms_subset fun e he hplain ↦ ?_⟩
  -- What is not declined is none of the forms, so it was a word of the document before.
  refine (List.mem_append.1 (mem_of_mem_tidied _ he)).resolve_right fun hform ↦ ?_
  rw [(Blueprint.provenance_of_mem_declinedForms hform).1] at hplain
  cases hplain

/-- **To decline a document again changes nothing**: a second declension succeeds as the first one
did, adds no entry, and leaves the document as it is. -/
theorem decline_decline (l l' : Language) (k : Nat)
    (hrun : Upkeep.decline.run l = (.ok k, l')) : Upkeep.decline.run l' = (.ok 0, l') := by
  obtain ⟨_, hentries, rfl, rfl⟩ := Upkeep.run_eq_ok.1 hrun
  obtain ⟨forms, hforms, rfl⟩ := map_eq_ok.1 hentries
  obtain ⟨again, hagain, hsubset⟩ := Language.declinedWords_declined hforms
  have htidy : l.tidy (l.tidy (l.lexicon ++ forms) ++ again) = l.tidy (l.lexicon ++ forms) :=
    tidied_append_of_forall _ fun e he ↦
      List.mem_map_of_mem (List.mem_append_right _ (hsubset he))
  refine Upkeep.run_eq_ok.2 ⟨_, map_eq_ok.2 ⟨again, hagain, rfl⟩, ?_, ?_⟩
  · show 0 = (l.tidy (l.tidy (l.lexicon ++ forms) ++ again)).length
      - (l.tidy (l.lexicon ++ forms)).length
    rw [htidy, Nat.sub_self]
  · show { l with declined := true, lexicon := l.tidy (l.lexicon ++ forms) }
      = { l with declined := true, lexicon := l.tidy (l.tidy (l.lexicon ++ forms) ++ again) }
    rw [htidy]

/-- A document that is in no order, has a word twice, and lists a plural as a word of its own. -/
def untidyNouns : Language :=
  { twoNouns with
    lexicon := [LexiconEntry.root "to" "to" "tree" "n", LexiconEntry.root "ka" "ka" "house" "n",
      LexiconEntry.root "to" "to" "tree" "n", LexiconEntry.new "kai" "kai" "house" "n" ["pl"]] }

theorem decline_decline_untidyNouns : ∃ k l', Upkeep.decline.run untidyNouns = (.ok k, l') ∧
    Upkeep.decline.run l' = (.ok 0, l') := by
  have hok : (Upkeep.decline.run untidyNouns).1.isOk = true := by decide
  obtain ⟨k, hk⟩ := exists_eq_ok_of_isOk hok
  have hrun : Upkeep.decline.run untidyNouns = (.ok k, (Upkeep.decline.run untidyNouns).2) :=
    Prod.ext hk rfl
  exact ⟨k, _, hrun, decline_decline untidyNouns _ k hrun⟩

end Glossopoeia
