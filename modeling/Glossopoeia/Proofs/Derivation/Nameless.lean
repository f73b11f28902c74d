import Glossopoeia.Proofs.Derivation.Lines
import Glossopoeia.Proofs.Derivation.Resolving
import Glossopoeia.Proofs.Text.Words

/-!
# Parts without a word

The word of a part is what stands before its first colon or hyphen (`Component.nameOf`).  Nothing
keeps a part from beginning with one of these, as a stray `-AUG` or `:n` does, and nothing looks at
whether there is a word.  A part without one is looked up like any other, by the beginning of a
gloss, and every gloss begins as it does.

So a part without a word is not an error as long as there is a root that fits: it is taken for the
gloss of the first of them (`Component.guess?`), and its line makes what it would make with that
gloss written out (`Deriver.deriveEntries_nameless`).
-/

set_option autoImplicit false

namespace Glossopoeia

open LexiconEntry Outcome Text

/-! ## The word of a part -/

namespace Component

/-- What stands before the first colon or hyphen of a part. -/
def nameOf (token : List Char) : List Char := token.takeWhile fun c ↦ c ≠ ':' ∧ c ≠ '-'

theorem nameOf_eq (token : List Char) : nameOf token = before ':' (before '-' token) := by
  simp [nameOf, before, List.takeWhile_takeWhile, bne]

/-- The word that is read is what stands before the first colon or hyphen. -/
theorem word_read {token : List Char} (h : Solid token) :
    (read token).word = String.ofList (nameOf token) := by
  have hsolid : Solid (nameOf token) := h.subset (List.takeWhile_subset _)
  rw [← hsolid.trim_eq, nameOf_eq, before_eq_getD_cut, before_eq_getD_cut, read]
  cases cut '-' token with
  | none => cases hword : cut ':' token <;> simp [hword]
  | some sides => cases hword : cut ':' sides.1 <;> simp [hword]

/-! ## What a part without a word is taken for -/

instance (part : Component) (e : LexiconEntry) : Decidable (part.Fits e) :=
  match h : part.partOfSpeech with
  | none => .isTrue (fits_of_none h e)
  | some _ => decidable_of_iff _ (fits_iff_of_some h e).symm

/-- The gloss that a part without a word is taken for: the empty one if a root that fits has it, and
otherwise that of the first root that fits. -/
def guess? (part : Component) (roots : List LexiconEntry) : Option String :=
  ((roots.find? fun r ↦ part.Fits r ∧ glossKey r.english = "").or
    (roots.find? fun r ↦ part.Fits r)).map fun r ↦ glossKey r.english

/-- The part with another word. -/
def naming (part : Component) (gloss : String) : Component := { part with word := gloss }

variable {part : Component} {roots : List LexiconEntry} {gloss : String}

theorem guess?_eq_none_iff : part.guess? roots = none ↔ ∀ r ∈ roots, ¬part.Fits r := by
  simp only [guess?, Option.map_eq_none_iff, Option.or_eq_none_iff, List.find?_eq_none,
    decide_eq_true_eq]
  exact ⟨And.right, fun h ↦ ⟨fun r hr hfits ↦ h r hr hfits.1, h⟩⟩

/-- **A part without a word resolves to what its guess resolves to.** -/
theorem resolves_naming (hword : part.word = "") (hguess : part.guess? roots = some gloss)
    {e : LexiconEntry} : (part.naming gloss).Resolves roots e ↔ part.Resolves roots e := by
  obtain ⟨r, hr, rfl⟩ := Option.map_eq_some_iff.1 hguess
  rcases Option.or_eq_some_iff.1 hr with hempty | ⟨hnone, hfirst⟩
  · -- The empty gloss is the word of the part already.
    have hgloss := List.find?_some hempty
    rw [decide_eq_true_eq] at hgloss
    rw [hgloss.2, ← hword]
    rfl
  · have hnone : ∀ r ∈ roots, ¬(glossKey r.english = part.word ∧ part.Fits r) := by
      simpa [hword, and_comm] using hnone
    -- Every gloss begins as the part does.
    have hbegins : (fun r ↦ part.word.toList <+: (glossKey r.english).toList ∧ part.Fits r)
        = part.Fits := by
      simp [hword]
    constructor
    · rintro (hlast | ⟨hnever, -, -⟩)
      · have hisFirst : IsFirst part.Fits roots r := find?_eq_some_iff_isFirst.1 hfirst
        rw [← hbegins] at hisFirst
        exact .beginning hnone hisFirst hlast
      · have hfits : part.Fits r := by simpa using List.find?_some hfirst
        exact absurd ⟨rfl, hfits⟩ (hnever r (List.mem_of_find?_eq_some hfirst))
    · rintro (⟨_, _, rfl, hexact, -⟩ | ⟨-, hfirst', hlast⟩)
      · exact absurd hexact (hnone e (by simp))
      · rw [hbegins, ← find?_eq_some_iff_isFirst, hfirst] at hfirst'
        cases hfirst'
        exact .exact hlast

end Component

namespace WordIndex

theorem resolve_eq_ok {index : WordIndex} {word : String} {pos : Option String} {e : LexiconEntry} :
    index.resolve word pos = .ok e ↔ index.lookup? word pos = some e := by
  rw [resolve]
  cases index.lookup? word pos <;> simp

/-- A part without a word resolves to what its guess resolves to, and the guess resolves. -/
theorem resolve_naming {lexicon : List LexiconEntry} {part : Component} {gloss : String}
    (hword : part.word = "") (hguess : part.guess? (lexicon.filter isRoot) = some gloss) :
    (ofLexicon lexicon).resolve gloss part.partOfSpeech
      = (ofLexicon lexicon).resolve part.word part.partOfSpeech := by
  have hlookup : (ofLexicon lexicon).lookup? gloss part.partOfSpeech
      = (ofLexicon lexicon).lookup? part.word part.partOfSpeech := by
    ext e
    calc (ofLexicon lexicon).lookup? gloss part.partOfSpeech = some e
        ↔ (part.naming gloss).Resolves (lexicon.filter isRoot) e :=
          @lookup?_foldl_register_eq_some_iff (part.naming gloss) _ _
      _ ↔ part.Resolves (lexicon.filter isRoot) e := Component.resolves_naming hword hguess
      _ ↔ (ofLexicon lexicon).lookup? part.word part.partOfSpeech = some e :=
          lookup?_foldl_register_eq_some_iff.symm
  cases hfound : (ofLexicon lexicon).lookup? part.word part.partOfSpeech with
  | some e => rw [resolve, resolve, hlookup, hfound]
  | none =>
    -- Then no root fits, since every gloss begins as the part does, and there is no guess.
    have hno : part.guess? (lexicon.filter isRoot) = none :=
      Component.guess?_eq_none_iff.2 fun r hr hfits ↦ by
        have hbegins := lookup?_foldl_register_eq_none_iff.1 hfound r hr hfits
        rw [hword] at hbegins
        cases hbegins
    cases hno.symm.trans hguess

end WordIndex

/-! ## Lines with such a part -/

/-- The parts of a rule are those of its right side. -/
theorem DerivationRule.parts_of_read {line left right : List Char} {rule : DerivationRule}
    (hrule : DerivationRule.read line = .ok rule) (hright : cut '=' line = some (left, right)) :
    rule.parts = Component.readAll right := by
  simp only [DerivationRule.read, hright] at hrule
  split at hrule
  · cases hrule
  · cases hrule
    rfl

theorem DerivationRule.ne_nil_of_read {line : List Char} {rule : DerivationRule}
    (hrule : DerivationRule.read line = .ok rule) : line ≠ [] := by
  rintro rfl
  cases hrule

namespace Deriver

variable {d : Deriver} {lexicon earlier : List LexiconEntry} {before : List String} {raw : String}
  {rule : DerivationRule} {part : Component}

theorem deriveEntries_eq_ok {decliner : Option Decliner} {rules : List String}
    {entries : List LexiconEntry} : d.deriveEntries decliner rules lexicon = .ok entries ↔
      ∃ roots, d.derive rules lexicon = .ok roots ∧ families decliner roots = entries := by
  rw [deriveEntries, deriveLines_eq, derive_eq, map_eq_ok]

theorem deriveLine_eq_ok_of_read {index : WordIndex}
    (hrule : DerivationRule.read (trim raw.toList) = .ok rule) {roots : List LexiconEntry} :
    d.deriveLine index raw = .ok roots ↔
      ∃ form, d.formOf index rule.parts = .ok form ∧ form ≠ [] ∧ roots = d.rootsOf rule form := by
  simp [deriveLine_eq_ok, DerivationRule.ne_nil_of_read hrule, hrule]

/-- A run up to a rule succeeds if the parts of the rule have a form. -/
theorem deriveEntries_append_singleton_eq_ok (hearlier : d.derive before lexicon = .ok earlier)
    (hrule : DerivationRule.read (trim raw.toList) = .ok rule) {decliner : Option Decliner}
    {entries : List LexiconEntry} :
    d.deriveEntries decliner (before ++ [raw]) lexicon = .ok entries ↔
      ∃ form, d.formOf (WordIndex.ofLexicon (lexicon ++ earlier)) rule.parts = .ok form ∧
        form ≠ [] ∧ entries = families decliner (earlier ++ d.rootsOf rule form) := by
  have hroots := List.filter_eq_self.2 (d.isRoot_of_derive hearlier)
  rw [deriveEntries_eq_ok, d.derive_append_of_filter hearlier hroots, derive_eq]
  constructor
  · rintro ⟨_, hmade, rfl⟩
    obtain ⟨_, hline, rfl⟩ := map_eq_ok.1 hmade
    obtain ⟨first, _, hfirst, hnil, rfl⟩ := deriveFrom_cons_eq_ok.1 hline
    obtain ⟨form, hform, hne, rfl⟩ := (deriveLine_eq_ok_of_read hrule).1 hfirst
    cases hnil
    exact ⟨form, hform, hne, by rw [List.append_nil]⟩
  · rintro ⟨form, hform, hne, rfl⟩
    have hfirst := (deriveLine_eq_ok_of_read hrule).2 ⟨form, hform, hne, rfl⟩
    have hline : d.deriveFrom (WordIndex.ofLexicon (lexicon ++ earlier)) [raw]
        = .ok (d.rootsOf rule form) :=
      deriveFrom_cons_eq_ok.2 ⟨_, [], hfirst, rfl, (List.append_nil _).symm⟩
    exact ⟨_, map_eq_ok.2 ⟨_, hline, rfl⟩, rfl⟩

/-- A line with a part that resolves to nothing ends every run. -/
theorem exists_deriveEntries_eq_error (hearlier : d.derive before lexicon = .ok earlier)
    (hrule : DerivationRule.read (trim raw.toList) = .ok rule) (hpart : part ∈ rule.parts)
    (hnone : (WordIndex.ofLexicon (lexicon ++ earlier)).lookup? part.word part.partOfSpeech = none)
    (decliner : Option Decliner) (after : List String) :
    ∃ error, d.deriveEntries decliner (before ++ raw :: after) lexicon = .error error := by
  cases hentries : d.deriveEntries decliner (before ++ raw :: after) lexicon with
  | error error => exact ⟨error, rfl⟩
  | ok entries =>
    obtain ⟨roots, hroots, -⟩ := deriveEntries_eq_ok.1 hentries
    obtain ⟨rule', form, ⟨hrule', earlier', hearlier', hform⟩, -⟩ :=
      exists_forms hroots (DerivationRule.ne_nil_of_read hrule)
    cases hrule.symm.trans hrule'
    cases hearlier.symm.trans hearlier'
    obtain ⟨forms, hforms, -⟩ := bind_eq_ok.1 hform
    obtain ⟨text, -, htext⟩ := exists_mem_of_mapM hforms part hpart
    have hsome := (exists_partForm_eq_ok_iff.1 ⟨text, htext⟩).1
    rw [hnone] at hsome
    cases hsome

/-- A part without a word contributes what its guess contributes. -/
theorem partForm_naming {gloss : String} (hword : part.word = "")
    (hguess : part.guess? (lexicon.filter isRoot) = some gloss) :
    d.partForm (WordIndex.ofLexicon lexicon) part
      = d.partForm (WordIndex.ofLexicon lexicon) (part.naming gloss) := by
  simp only [partForm, Component.naming, WordIndex.resolve_naming hword hguess]

theorem formOf_append_cons_congr {index : WordIndex} {part part' : Component}
    (h : d.partForm index part = d.partForm index part') (front back : List Component) :
    d.formOf index (front ++ part :: back) = d.formOf index (front ++ part' :: back) := by
  simp only [formOf, List.mapM_append, List.mapM_cons, h]

/-- **A part without a word is taken for a root that fits.**  If there is none, its line ends every
run; otherwise the run goes on as if the gloss of that root were written there.  A part with a word
resolves to nothing but roots that fit and whose gloss begins with the word. -/
theorem deriveEntries_nameless (d : Deriver) (decliner : Option Decliner)
    (lexicon earlier : List LexiconEntry) (before after : List String) (raw : String)
    (rule : DerivationRule) (left right : List Char)
    (hearlier : d.derive before lexicon = .ok earlier)
    (hrule : DerivationRule.read (trim raw.toList) = .ok rule)
    (hright : cut '=' (trim raw.toList) = some (left, right)) :
    let roots := (lexicon ++ earlier).filter isRoot
    let index := WordIndex.ofLexicon (lexicon ++ earlier)
    (∀ front token back, Component.tokenize right = front ++ token :: back →
      Component.nameOf token = [] →
        ((Component.read token).guess? roots = none → ∃ error,
          d.deriveEntries decliner (before ++ raw :: after) lexicon = .error error) ∧
        ∀ gloss, (Component.read token).guess? roots = some gloss → ∀ entries,
          d.deriveEntries decliner (before ++ [raw]) lexicon = .ok entries ↔
            ∃ form, d.formOf index (front.map Component.read
                ++ (Component.read token).naming gloss :: back.map Component.read) = .ok form ∧
              form ≠ [] ∧ entries = families decliner (earlier ++ d.rootsOf rule form)) ∧
    ∀ token ∈ Component.tokenize right, ∀ root,
      index.resolve (Component.read token).word (Component.read token).partOfSpeech = .ok root →
        root ∈ roots ∧ (Component.read token).Fits root ∧
          Component.nameOf token <+: (glossKey root.english).toList := by
  intro roots index
  have hword : ∀ token ∈ Component.tokenize right,
      (Component.read token).word = String.ofList (Component.nameOf token) :=
    fun token htoken ↦ Component.word_read ((setApart_words _).2 token htoken).solid
  constructor
  · intro front token back htokens hname
    have hnameless : (Component.read token).word = "" := by
      rw [hword token (by simp [htokens]), hname]
    have hparts : rule.parts = front.map Component.read
        ++ Component.read token :: back.map Component.read := by
      rw [DerivationRule.parts_of_read hrule hright, Component.readAll, htokens, List.map_append,
        List.map_cons]
    constructor
    · intro hguess
      have hpart : Component.read token ∈ rule.parts := by simp [hparts]
      have hnone : index.lookup? (Component.read token).word (Component.read token).partOfSpeech
          = none :=
        WordIndex.lookup?_foldl_register_eq_none_iff.2 fun r hr hfits ↦
          absurd hfits (Component.guess?_eq_none_iff.1 hguess r hr)
      exact exists_deriveEntries_eq_error hearlier hrule hpart hnone decliner after
    · intro gloss hguess entries
      rw [deriveEntries_append_singleton_eq_ok hearlier hrule, hparts,
        formOf_append_cons_congr (partForm_naming hnameless hguess)]
  · intro token htoken root hroot
    obtain ⟨hmem, hisRoot, hfits, hbegins, -⟩ :=
      WordIndex.mayName_of_lookup? (WordIndex.resolve_eq_ok.1 hroot)
    rw [WordIndex.beginsWith_iff, hword token htoken, String.toList_ofList] at hbegins
    exact ⟨List.mem_filter.2 ⟨hmem, hisRoot⟩, hfits, hbegins⟩

/-- Something big and a house. -/
def bigHouse : List LexiconEntry := [.root "to" "to" "big" "adj", .root "ka" "ka" "house" "n"]

/-- A blank has slipped in before the second part, which is taken for the house. -/
theorem deriveEntries_nameless_farm :
    DerivationRule.read (trim "farm : n = big :n".toList) = .ok ⟨"farm : n = big :n",
        ["farm ".toList], " n ".toList, [⟨"big", none, none⟩, ⟨"", some "n", none⟩]⟩ ∧
      cut '=' (trim "farm : n = big :n".toList) = some ("farm : n ".toList, " big :n".toList) ∧
      Component.tokenize " big :n".toList = ["big".toList, ":n".toList] ∧
      Component.nameOf ":n".toList = [] ∧
      ∃ farm : LexiconEntry, farm.phonetic = "toka" ∧
        unaffixed.derive ["farm : n = big :n"] bigHouse = .ok [farm] := by
  have hrule : DerivationRule.read (trim "farm : n = big :n".toList) = .ok ⟨"farm : n = big :n",
      ["farm ".toList], " n ".toList, [⟨"big", none, none⟩, ⟨"", some "n", none⟩]⟩ := by decide
  have hright : cut '=' (trim "farm : n = big :n".toList)
      = some ("farm : n ".toList, " big :n".toList) := by decide
  have htokens : Component.tokenize " big :n".toList = ["big".toList, ":n".toList] := by decide
  obtain ⟨hnameless, -⟩ := unaffixed.deriveEntries_nameless none bigHouse [] [] []
    "farm : n = big :n" _ _ _ rfl hrule hright
  obtain ⟨-, hguess⟩ := hnameless ["big".toList] ":n".toList [] htokens (by decide)
  have hderive := (hguess "house" (by decide) _).2 ⟨"toka".toList, by decide, by decide, rfl⟩
  exact ⟨hrule, hright, htokens, by decide, _, by decide, hderive⟩

end Deriver

/-- Not every derivation with a part that names no word fails. -/
theorem not_forall_deriveWords_nameless :
    ¬∀ (raw : String) (affixes : DerivationalAffixMap) (lexicon : List LexiconEntry)
      (affixMap : AffixMap) (speller : Speller) (alsoDecline : Bool) (left right : List Char),
      cut '=' (trim raw.toList) = some (left, right) →
      (∃ token ∈ Component.tokenize right, Component.nameOf token = []) →
        ∃ error, deriveWords [raw] affixes lexicon affixMap speller alsoDecline = .error error := by
  intro hall
  have hright : cut '=' (trim "farm : n = big :n".toList)
      = some ("farm : n ".toList, " big :n".toList) := by decide
  have hstray : ∃ token ∈ Component.tokenize " big :n".toList, Component.nameOf token = [] := by
    decide
  obtain ⟨error, herror⟩ := hall "farm : n = big :n" .empty Deriver.bigHouse .empty ⟨[]⟩ false
    _ _ hright hstray
  have hmade : (deriveWords ["farm : n = big :n"] .empty Deriver.bigHouse .empty ⟨[]⟩ false).isOk
      = true := by
    decide +kernel
  rw [herror] at hmade
  cases hmade

end Glossopoeia
