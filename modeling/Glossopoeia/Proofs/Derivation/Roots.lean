import Glossopoeia.Derivation.Deriver
import Glossopoeia.Proofs.Declension.Forms
import Glossopoeia.Proofs.Derivation.WordIndex
import Glossopoeia.Proofs.Outcome

/-!
# The roots that derivations make

A run registers each new root and lets its declined forms follow it, line by line.  The forms are
never looked up and a declension never fails, so the run comes apart: first the roots are made, by
`Deriver.deriveFrom`, and then each is followed by its forms (`Deriver.deriveLines_eq`).  All
further facts are about the roots alone.

What a derivation makes is settled by its line up to how it sounds: the glosses, the part of speech
and the record of the line are there whatever the words of its right side resolve to
(`map_sense_deriveFrom`).  How it sounds is settled by what the words of the right side resolve to,
so derivations from lexicons in which the same words name alike are the same (`deriveFrom_congr`).

All roots are derived and none declined, also if each root brings its declined forms with it, so the
roots can be told from the forms again (`filter_withFamilies`).
-/

set_option autoImplicit false

namespace Glossopoeia

open LexiconEntry Outcome Text

/-- The entry without how it sounds and is spelled. -/
def LexiconEntry.sense (e : LexiconEntry) : LexiconEntry := { e with phonetic := "", spelled := "" }

/-! ## Roots first, families afterwards -/

/-- Each root followed by its declined forms. -/
def withFamilies (decliner : Decliner) (roots : List LexiconEntry) : List LexiconEntry :=
  roots.flatMap fun root ↦ root :: decliner.declineEntry root

/-- A word that is an entry can always be declined, and says itself whether it is derived. -/
theorem Decliner.decline_entry (decliner : Decliner) (e : LexiconEntry) (derived : Bool) :
    decliner.decline (.entry e) derived = .ok (decliner.declineEntry e) := rfl

namespace Deriver

/-- The roots that lines make, each line with the roots of those before it. -/
def deriveFrom (d : Deriver) : WordIndex → List String → Except Error (List LexiconEntry)
  | _, [] => .ok []
  | index, raw :: rest => do
    let roots ← d.deriveLine index raw
    let others ← d.deriveFrom (roots.foldl WordIndex.register index) rest
    return roots ++ others

/-- Each root followed by what it brings. -/
def families (decliner : Option Decliner) (roots : List LexiconEntry) : List LexiconEntry :=
  decliner.elim roots (withFamilies · roots)

variable {d : Deriver}

theorem families_cons (decliner : Option Decliner) (root : LexiconEntry)
    (rest : List LexiconEntry) :
    families decliner (root :: rest) = families decliner [root] ++ families decliner rest := by
  cases decliner with
  | none => rfl
  | some decliner => rw [families, families, families, Option.elim_some, Option.elim_some,
      Option.elim_some, withFamilies, withFamilies, withFamilies, List.flatMap_cons,
      List.flatMap_singleton]

theorem families_append (decliner : Option Decliner) (roots others : List LexiconEntry) :
    families decliner (roots ++ others) = families decliner roots ++ families decliner others := by
  cases decliner with
  | none => rfl
  | some decliner => exact List.flatMap_append

theorem familyOf_eq (decliner : Option Decliner) (root : LexiconEntry) :
    familyOf decliner root = .ok (families decliner [root]) := by
  cases decliner with
  | none => rfl
  | some decliner =>
    rw [familyOf, families, Option.elim_some, withFamilies, List.flatMap_singleton]
    rfl

/-- The families leave no mark on the index. -/
theorem enterRoots_eq (decliner : Option Decliner) (index : WordIndex)
    (roots : List LexiconEntry) :
    enterRoots decliner index roots
      = .ok (roots.foldl WordIndex.register index, families decliner roots) := by
  induction roots generalizing index with
  | nil => cases decliner <;> rfl
  | cons root rest ih =>
    rw [enterRoots, familyOf_eq, ih, families_cons decliner root rest]
    rfl

/-- **A run is a derivation of roots and a declension of what it has made.** -/
theorem deriveLines_eq (decliner : Option Decliner) (index : WordIndex) (rules : List String) :
    d.deriveLines decliner index rules = (d.deriveFrom index rules).map (families decliner) := by
  induction rules generalizing index with
  | nil => cases decliner <;> rfl
  | cons raw rest ih =>
    rw [deriveLines, deriveFrom]
    cases d.deriveLine index raw with
    | error e => rfl
    | ok roots =>
      show (enterRoots decliner index roots >>= _)
        = (d.deriveFrom (roots.foldl WordIndex.register index) rest >>= _).map _
      rw [enterRoots_eq]
      show (d.deriveLines decliner (roots.foldl WordIndex.register index) rest >>= _) = _
      rw [ih]
      cases d.deriveFrom (roots.foldl WordIndex.register index) rest with
      | error e => rfl
      | ok others => exact congrArg Except.ok (families_append decliner roots others).symm

theorem derive_eq (rules : List String) (lexicon : List LexiconEntry) :
    d.derive rules lexicon = d.deriveFrom (WordIndex.ofLexicon lexicon) rules := by
  rw [derive, deriveEntries, deriveLines_eq]
  cases d.deriveFrom (WordIndex.ofLexicon lexicon) rules <;> rfl

theorem deriveEntries_some_eq (decliner : Decliner) (rules : List String)
    (lexicon : List LexiconEntry) :
    d.deriveEntries (some decliner) rules lexicon
      = (d.derive rules lexicon).map (withFamilies decliner) := by
  rw [derive_eq, deriveEntries, deriveLines_eq]
  rfl

/-! ## One line -/

theorem mem_rootsOf {rule : DerivationRule} {form : List Char} {e : LexiconEntry}
    (h : e ∈ d.rootsOf rule form) : e.isRoot = true ∧ e.derived = true ∧ e.declined = false := by
  obtain ⟨gloss, _, rfl⟩ := List.mem_map.1 h
  exact ⟨rfl, rfl, rfl⟩

/-- The sense of the roots does not depend on their form. -/
theorem map_sense_rootsOf (d' : Deriver) (rule : DerivationRule) (form form' : List Char) :
    (d.rootsOf rule form).map sense = (d'.rootsOf rule form').map sense := by
  rw [rootsOf, rootsOf, List.map_map, List.map_map]
  rfl

/-- A line that succeeds is blank, or it is read and has a form. -/
theorem deriveLine_eq_ok {index : WordIndex} {raw : String} {roots : List LexiconEntry} :
    d.deriveLine index raw = .ok roots ↔
      (trim raw.toList = [] ∧ roots = []) ∨
        ∃ rule form, trim raw.toList ≠ [] ∧ DerivationRule.read (trim raw.toList) = .ok rule ∧
          d.formOf index rule.parts = .ok form ∧ form ≠ [] ∧ roots = d.rootsOf rule form := by
  rw [deriveLine]
  by_cases hline : trim raw.toList = []
  · rw [if_pos (by simp [hline]), pure_eq_ok]
    simp [hline, eq_comm]
  · rw [if_neg (by simpa using hline), bind_eq_ok]
    constructor
    · rintro ⟨rule, hrule, h⟩
      obtain ⟨form, hform, h⟩ := bind_eq_ok.1 h
      split at h
      · cases h
      · next hne =>
        exact .inr ⟨rule, form, hline, hrule, hform, by simpa using hne, (pure_eq_ok.1 h).symm⟩
    · rintro (⟨hnil, _⟩ | ⟨rule, form, _, hrule, hform, hne, rfl⟩)
      · exact absurd hnil hline
      · refine ⟨rule, hrule, bind_eq_ok.2 ⟨form, hform, ?_⟩⟩
        rw [if_neg (by simpa using hne)]
        rfl

theorem mem_deriveLine {index : WordIndex} {raw : String} {roots : List LexiconEntry}
    (h : d.deriveLine index raw = .ok roots) :
    ∀ e ∈ roots, e.isRoot = true ∧ e.derived = true ∧ e.declined = false := by
  rcases deriveLine_eq_ok.1 h with ⟨_, rfl⟩ | ⟨rule, form, _, _, _, _, rfl⟩
  · exact fun _ he ↦ absurd he List.not_mem_nil
  · exact fun _ he ↦ mem_rootsOf he

/-- Two runs of a line that both succeed make the same roots up to how they sound. -/
theorem map_sense_deriveLine {d' : Deriver} {index index' : WordIndex} {raw : String}
    {roots roots' : List LexiconEntry} (h : d.deriveLine index raw = .ok roots)
    (h' : d'.deriveLine index' raw = .ok roots') : roots.map sense = roots'.map sense := by
  rcases deriveLine_eq_ok.1 h with ⟨hnil, rfl⟩ | ⟨rule, form, hne, hrule, _, _, rfl⟩ <;>
    rcases deriveLine_eq_ok.1 h' with ⟨hnil', rfl⟩ | ⟨rule', form', hne', hrule', _, _, rfl⟩
  · rfl
  · exact absurd hnil hne'
  · exact absurd hnil' hne
  · rw [hrule] at hrule'
    cases hrule'
    exact map_sense_rootsOf d' rule form form'

/-! ## All lines -/

theorem deriveFrom_cons_eq_ok {index : WordIndex} {raw : String} {rest : List String}
    {roots : List LexiconEntry} :
    d.deriveFrom index (raw :: rest) = .ok roots ↔
      ∃ first others, d.deriveLine index raw = .ok first ∧
        d.deriveFrom (first.foldl WordIndex.register index) rest = .ok others ∧
          roots = first ++ others := by
  rw [deriveFrom, bind_eq_ok]
  refine exists_congr fun first ↦ ?_
  rw [bind_eq_ok]
  constructor
  · rintro ⟨hfirst, others, hothers, h⟩
    exact ⟨others, hfirst, hothers, (pure_eq_ok.1 h).symm⟩
  · rintro ⟨others, hfirst, hothers, rfl⟩
    exact ⟨hfirst, others, hothers, rfl⟩

theorem mem_deriveFrom {index : WordIndex} {rules : List String} {roots : List LexiconEntry}
    (h : d.deriveFrom index rules = .ok roots) :
    ∀ e ∈ roots, e.isRoot = true ∧ e.derived = true ∧ e.declined = false := by
  induction rules generalizing index roots with
  | nil =>
    cases h
    exact fun _ he ↦ absurd he List.not_mem_nil
  | cons raw rest ih =>
    obtain ⟨first, others, hfirst, hothers, rfl⟩ := deriveFrom_cons_eq_ok.1 h
    intro e he
    rcases List.mem_append.1 he with he | he
    · exact mem_deriveLine hfirst e he
    · exact ih hothers e he

/-- **Two derivations of the same lines make the same roots up to how they sound**, whatever words
they are made from. -/
theorem map_sense_deriveFrom {d' : Deriver} {index index' : WordIndex} {rules : List String}
    {roots roots' : List LexiconEntry} (h : d.deriveFrom index rules = .ok roots)
    (h' : d'.deriveFrom index' rules = .ok roots') : roots.map sense = roots'.map sense := by
  induction rules generalizing index index' roots roots' with
  | nil =>
    cases h
    cases h'
    rfl
  | cons raw rest ih =>
    obtain ⟨first, others, hfirst, hothers, rfl⟩ := deriveFrom_cons_eq_ok.1 h
    obtain ⟨first', others', hfirst', hothers', rfl⟩ := deriveFrom_cons_eq_ok.1 h'
    rw [List.map_append, List.map_append, map_sense_deriveLine hfirst hfirst', ih hothers hothers']

end Deriver

/-! ## From words that name alike -/

/-- The parts of a derivation, none if its line cannot be read. -/
def DerivationRule.partsOf (raw : String) : List Component :=
  match DerivationRule.read (trim raw.toList) with
  | .ok rule => rule.parts
  | .error _ => []

namespace Deriver

variable {d : Deriver} {index index' : WordIndex}

/-- A part contributes the same form if it names alike, and otherwise the same error. -/
theorem partForm_congr {part : Component} (h : index.NamesAlike index' part) :
    d.partForm index part = d.partForm index' part := by
  rw [WordIndex.NamesAlike] at h
  rw [partForm, partForm, WordIndex.resolve, WordIndex.resolve]
  cases hfound : index.lookup? part.word part.partOfSpeech with
  | none =>
    rw [hfound, Option.map_none, eq_comm, Option.map_eq_none_iff] at h
    rw [h]
  | some e =>
    rw [hfound, Option.map_some, eq_comm, Option.map_eq_some_iff] at h
    obtain ⟨e', hfound', heq⟩ := h
    have hphonetic : e'.phonetic = e.phonetic := congrArg Prod.snd heq
    rw [hfound']
    simp only [bind, Except.bind, hphonetic]

theorem formOf_congr {parts : List Component}
    (h : ∀ part ∈ parts, index.NamesAlike index' part) :
    d.formOf index parts = d.formOf index' parts := by
  have hforms : parts.mapM (d.partForm index) = parts.mapM (d.partForm index') := by
    induction parts with
    | nil => rfl
    | cons part rest ih =>
      rw [List.forall_mem_cons] at h
      rw [List.mapM_cons, List.mapM_cons, partForm_congr h.1, ih h.2]
  rw [formOf, formOf, hforms]

theorem deriveLine_congr {raw : String}
    (h : ∀ part ∈ DerivationRule.partsOf raw, index.NamesAlike index' part) :
    d.deriveLine index raw = d.deriveLine index' raw := by
  rw [deriveLine, deriveLine]
  rw [DerivationRule.partsOf] at h
  split
  · rfl
  · cases hrule : DerivationRule.read (trim raw.toList) with
    | error e => rfl
    | ok rule =>
      rw [hrule] at h
      show (d.formOf index rule.parts >>= _) = (d.formOf index' rule.parts >>= _)
      rw [formOf_congr h]

/-- **Derivations whose parts name alike make the same roots, or fail in the same way.**  The roots
made on the way are registered in both indices and keep the parts that follow naming alike. -/
theorem deriveFrom_congr {rules : List String} (hi : index.IsKeyed) (hi' : index'.IsKeyed)
    (h : ∀ raw ∈ rules, ∀ part ∈ DerivationRule.partsOf raw, index.NamesAlike index' part) :
    d.deriveFrom index rules = d.deriveFrom index' rules := by
  induction rules generalizing index index' with
  | nil => rfl
  | cons raw rest ih =>
    rw [List.forall_mem_cons] at h
    rw [deriveFrom, deriveFrom, deriveLine_congr h.1]
    refine bind_congr fun roots ↦ ?_
    rw [ih (hi.foldl_register roots) (hi'.foldl_register roots)]
    exact fun raw hraw part hpart ↦ (h.2 raw hraw part hpart).foldl_register hi hi' roots

end Deriver

theorem deriveWords_congr {rules : List String} {affixes : DerivationalAffixMap}
    {lexicon lexicon' : List LexiconEntry} {affixMap : AffixMap} {speller : Speller}
    {alsoDecline : Bool}
    (h : ∀ raw ∈ rules, ∀ part ∈ DerivationRule.partsOf raw,
      (WordIndex.ofLexicon lexicon).NamesAlike (WordIndex.ofLexicon lexicon') part) :
    deriveWords rules affixes lexicon affixMap speller alsoDecline
      = deriveWords rules affixes lexicon' affixMap speller alsoDecline := by
  have hderive : ∀ d : Deriver, d.derive rules lexicon = d.derive rules lexicon' := fun d ↦ by
    rw [Deriver.derive_eq, Deriver.derive_eq]
    exact Deriver.deriveFrom_congr (WordIndex.isKeyed_ofLexicon lexicon)
      (WordIndex.isKeyed_ofLexicon lexicon') h
  simp only [deriveWords, Deriver.deriveEntries_some_eq, hderive]

/-! ## From words that resolve alike -/

/-- The error of a derivation that can be read but would make a root without a sound. -/
def Error.IsSoundless (e : Error) : Prop :=
  ∃ line rule, DerivationRule.read line = .ok rule ∧ e = .malformedDerivation rule.line

namespace WordIndex

/-- Roots of the same senses keep words resolving alike. -/
theorem ResolvesAlike.foldl_register {index index' : WordIndex} (h : index.ResolvesAlike index')
    (hi : index.IsKeyed) (hi' : index'.IsKeyed) {roots roots' : List LexiconEntry}
    (hsense : roots.map sense = roots'.map sense) :
    (roots.foldl WordIndex.register index).ResolvesAlike
      (roots'.foldl WordIndex.register index') := by
  induction roots generalizing index index' roots' with
  | nil =>
    rw [List.map_nil, eq_comm, List.map_eq_nil_iff] at hsense
    rw [hsense]
    exact h
  | cons e rest ih =>
    cases roots' with
    | nil => cases hsense
    | cons e' rest' =>
      obtain ⟨hfirst, hrest⟩ := List.cons.inj hsense
      have henglish : e.sense.english = e'.sense.english := congrArg LexiconEntry.english hfirst
      have hpos : e.sense.partOfSpeech = e'.sense.partOfSpeech :=
        congrArg LexiconEntry.partOfSpeech hfirst
      have hnext : (index.register e).ResolvesAlike (index'.register e') :=
        h.register hi hi' henglish hpos
      exact ih hnext (hi.register e) (hi'.register e') hrest

end WordIndex

namespace Deriver

variable {d : Deriver} {index index' : WordIndex}

/-- A part contributes a form if it names a root and its affix is known. -/
theorem exists_partForm_eq_ok_iff {part : Component} :
    (∃ form, d.partForm index part = .ok form) ↔
      (index.lookup? part.word part.partOfSpeech).isSome ∧
        ∀ tag, part.affix = some tag → (d.affixes.get? tag).isSome := by
  simp only [partForm, WordIndex.resolve, bind, Except.bind, pure, Except.pure, throw, throwThe,
    MonadExceptOf.throw]
  cases part.affix with
  | none => cases index.lookup? part.word part.partOfSpeech <;> simp
  | some tag =>
    cases hget : d.affixes.get? tag with
    | none => simp [hget]
    | some affix => cases index.lookup? part.word part.partOfSpeech <;> simp [hget]

theorem exists_formOf_eq_ok (h : index.ResolvesAlike index') {parts : List Component}
    {form : List Char} (hform : d.formOf index parts = .ok form) :
    ∃ form', d.formOf index' parts = .ok form' := by
  rw [formOf, bind_eq_ok] at hform
  obtain ⟨forms, hforms, _⟩ := hform
  obtain ⟨forms', hforms'⟩ := exists_mapM_eq_ok (fun part _ form hpart ↦ by
    rw [exists_partForm_eq_ok_iff, ← h]
    exact exists_partForm_eq_ok_iff.1 ⟨form, hpart⟩) hforms
  exact ⟨forms'.flatten, bind_eq_ok.2 ⟨forms', hforms', rfl⟩⟩

/-- A line that succeeds with one index succeeds with the other, or its root would have no sound
there. -/
theorem deriveLine_resolvesAlike (h : index.ResolvesAlike index') {raw : String}
    {roots : List LexiconEntry} (hroots : d.deriveLine index raw = .ok roots) :
    (∃ roots', d.deriveLine index' raw = .ok roots') ∨
      ∃ e, d.deriveLine index' raw = .error e ∧ e.IsSoundless := by
  rcases deriveLine_eq_ok.1 hroots with ⟨hnil, _⟩ | ⟨rule, form, hline, hrule, hform, _, _⟩
  · exact .inl ⟨[], deriveLine_eq_ok.2 (.inl ⟨hnil, rfl⟩)⟩
  · obtain ⟨form', hform'⟩ := exists_formOf_eq_ok h hform
    by_cases hsound : form' = []
    · refine .inr ⟨.malformedDerivation rule.line, ?_, _, rule, hrule, rfl⟩
      rw [deriveLine, if_neg (by simpa using hline), hrule]
      show (d.formOf index' rule.parts >>= _) = _
      rw [hform', hsound]
      rfl
    · exact .inl ⟨_, deriveLine_eq_ok.2 (.inr ⟨rule, form', hline, hrule, hform', hsound, rfl⟩)⟩

/-- **Derivations that succeed with one index succeed with the other, or a root would have no sound
there.**  The roots made on the way differ in their sound at most, so the lines that follow resolve
alike as well. -/
theorem deriveFrom_resolvesAlike (h : index.ResolvesAlike index') (hi : index.IsKeyed)
    (hi' : index'.IsKeyed) {rules : List String} {roots : List LexiconEntry}
    (hroots : d.deriveFrom index rules = .ok roots) :
    (∃ roots', d.deriveFrom index' rules = .ok roots') ∨
      ∃ e, d.deriveFrom index' rules = .error e ∧ e.IsSoundless := by
  induction rules generalizing index index' roots with
  | nil => exact .inl ⟨[], rfl⟩
  | cons raw rest ih =>
    obtain ⟨first, others, hfirst, hothers, _⟩ := deriveFrom_cons_eq_ok.1 hroots
    rw [deriveFrom]
    rcases deriveLine_resolvesAlike h hfirst with ⟨first', hfirst'⟩ | ⟨e, he, hsoundless⟩
    · have hnext := h.foldl_register hi hi' (map_sense_deriveLine hfirst hfirst')
      rw [hfirst']
      rcases ih hnext (hi.foldl_register first) (hi'.foldl_register first') hothers with
        ⟨others', hothers'⟩ | ⟨e, he, hsoundless⟩
      · refine .inl ⟨first' ++ others', ?_⟩
        show (d.deriveFrom _ rest >>= _) = _
        rw [hothers']
        rfl
      · refine .inr ⟨e, ?_, hsoundless⟩
        show (d.deriveFrom _ rest >>= _) = _
        rw [he]
        rfl
    · rw [he]
      exact .inr ⟨e, rfl, hsoundless⟩

end Deriver

theorem deriveWords_resolvesAlike {rules : List String} {affixes : DerivationalAffixMap}
    {lexicon lexicon' : List LexiconEntry} {affixMap : AffixMap} {speller : Speller}
    (h : (WordIndex.ofLexicon lexicon).ResolvesAlike (WordIndex.ofLexicon lexicon'))
    {roots : List LexiconEntry}
    (hroots : deriveWords rules affixes lexicon affixMap speller false = .ok roots) :
    (∃ roots', deriveWords rules affixes lexicon' affixMap speller false = .ok roots') ∨
      ∃ e, deriveWords rules affixes lexicon' affixMap speller false = .error e ∧
        e.IsSoundless := by
  rw [deriveWords, bind_eq_ok] at hroots
  obtain ⟨d, hd, hroots⟩ := hroots
  rw [deriveWords, hd]
  show (∃ roots', d.derive rules lexicon' = .ok roots') ∨
    ∃ e, d.derive rules lexicon' = .error e ∧ e.IsSoundless
  rw [if_neg Bool.false_ne_true, Deriver.derive_eq] at hroots
  rw [Deriver.derive_eq]
  exact Deriver.deriveFrom_resolvesAlike h (WordIndex.isKeyed_ofLexicon lexicon)
    (WordIndex.isKeyed_ofLexicon lexicon') hroots

/-! ## With their declined forms -/

section Families

variable {rules : List String} {affixes : DerivationalAffixMap} {lexicon : List LexiconEntry}
  {affixMap : AffixMap} {speller : Speller} {roots : List LexiconEntry}

theorem deriveWords_false_eq_ok :
    deriveWords rules affixes lexicon affixMap speller false = .ok roots ↔
      ∃ d, Deriver.ofAffixes affixes speller = .ok d ∧
        d.deriveFrom (WordIndex.ofLexicon lexicon) rules = .ok roots := by
  simp only [← Deriver.derive_eq]
  rw [deriveWords, bind_eq_ok]
  rfl

/-- To derive words with their forms is to derive them and to decline each of them. -/
theorem deriveWords_true_eq_ok {entries : List LexiconEntry} :
    deriveWords rules affixes lexicon affixMap speller true = .ok entries ↔
      ∃ decliner roots, Decliner.ofAffixMap affixMap speller = .ok decliner ∧
        deriveWords rules affixes lexicon affixMap speller false = .ok roots ∧
          entries = withFamilies decliner roots := by
  simp only [deriveWords_false_eq_ok, ← Deriver.derive_eq]
  rw [deriveWords, bind_eq_ok]
  simp only [if_true, bind_eq_ok, Deriver.deriveEntries_some_eq, map_eq_ok]
  constructor
  · rintro ⟨d, hd, decliner, hdecliner, roots, hroots, rfl⟩
    exact ⟨decliner, roots, hdecliner, ⟨d, hd, hroots⟩, rfl⟩
  · rintro ⟨decliner, roots, hdecliner, ⟨d, hd, hroots⟩, rfl⟩
    exact ⟨d, hd, decliner, hdecliner, roots, hroots, rfl⟩

/-- Derived roots are derived and not declined. -/
theorem mem_deriveWords (h : deriveWords rules affixes lexicon affixMap speller false = .ok roots) :
    ∀ e ∈ roots, e.derived = true ∧ e.declined = false := by
  obtain ⟨d, _, hroots⟩ := deriveWords_false_eq_ok.1 h
  exact fun e he ↦ (Deriver.mem_deriveFrom hroots e he).2

theorem mem_withFamilies {decliner : Decliner} {e : LexiconEntry} :
    e ∈ withFamilies decliner roots ↔ ∃ r ∈ roots, e = r ∨ e ∈ decliner.declineEntry r := by
  simp only [withFamilies, List.mem_flatMap, List.mem_cons]

/-- What tells the roots from their forms leaves the roots. -/
theorem filter_withFamilies {decliner : Decliner} {P : LexiconEntry → Bool}
    (hroots : ∀ r ∈ roots, P r = true)
    (hforms : ∀ r ∈ roots, ∀ f ∈ decliner.declineEntry r, P f = false) :
    (withFamilies decliner roots).filter P = roots := by
  induction roots with
  | nil => rfl
  | cons r roots ih =>
    rw [List.forall_mem_cons] at hroots hforms
    have hnone : (decliner.declineEntry r).filter P = [] := by
      rw [List.filter_eq_nil_iff]
      intro f hf
      rw [hforms.1 f hf]
      exact Bool.false_ne_true
    rw [withFamilies, List.flatMap_cons, List.cons_append, List.filter_cons_of_pos hroots.1,
      List.filter_append, hnone, List.nil_append, ← withFamilies, ih hroots.2 hforms.2]

/-- The roots are what is not declined. -/
theorem filter_undeclined_withFamilies {decliner : Decliner}
    (h : ∀ r ∈ roots, r.declined = false) :
    (withFamilies decliner roots).filter (fun e ↦ !e.declined) = roots := by
  refine filter_withFamilies (fun r hr ↦ by rw [h r hr, Bool.not_false]) fun r _ f hf ↦ ?_
  rw [(Decliner.provenance_of_mem_declineEntry hf).2, Bool.not_true]

/-- The values of families are those of the roots and those of their forms. -/
theorem mem_values_withFamilies {decliner : Decliner} {v : Value} :
    v ∈ (withFamilies decliner roots).map value ↔
      v ∈ roots.map value ∨ v ∈ (roots.flatMap decliner.declineEntry).map value := by
  simp only [List.mem_map, mem_withFamilies, List.mem_flatMap]
  constructor
  · rintro ⟨e, ⟨r, hr, rfl | he⟩, rfl⟩
    · exact .inl ⟨e, hr, rfl⟩
    · exact .inr ⟨e, ⟨r, hr, he⟩, rfl⟩
  · rintro (⟨r, hr, rfl⟩ | ⟨e, ⟨r, hr, he⟩, rfl⟩)
    · exact ⟨r, ⟨r, hr, .inl rfl⟩, rfl⟩
    · exact ⟨e, ⟨r, hr, .inr he⟩, rfl⟩

end Families

end Glossopoeia
