import Glossopoeia.Proofs.Derivation.Append

/-!
# The lines of derivations

Each line of a list of derivations is read by itself and put together from the words of the lexicon
and the roots of the lines before it.  `Deriver.Forms` says that a line is read as a rule and that
its parts are put together as a form.

A run that succeeds comes to every line, and what it makes is what its lines make: no derivation is
lost (`Deriver.exists_forms`) and none is invented (`Deriver.exists_forms_of_mem`).
-/

set_option autoImplicit false

namespace Glossopoeia

open LexiconEntry Outcome Text

/-- The root of a gloss of a derivation that is put together as `form`. -/
def DerivationRule.rootOf (speller : Speller) (rule : DerivationRule) (form gloss : List Char) :
    LexiconEntry :=
  .root (String.ofList form) (speller.spell (String.ofList form)) (String.ofList gloss)
    (String.ofList rule.partOfSpeech)

namespace Deriver

/-- Is the line `raw` read as `rule`, and are the parts of it put together as `form` from the words
of a lexicon and the roots of the lines before it? -/
structure Forms (d : Deriver) (lexicon : List LexiconEntry) (before : List String) (raw : String)
    (rule : DerivationRule) (form : List Char) : Prop where
  /-- The line is read. -/
  read : DerivationRule.read (trim raw.toList) = .ok rule
  /-- Its parts are put together. -/
  form : ∃ earlier, d.derive before lexicon = .ok earlier ∧
    d.formOf (WordIndex.ofLexicon (lexicon ++ earlier)) rule.parts = .ok form

variable {d : Deriver}

theorem value_mem_rootsOf {rule : DerivationRule} {form : List Char} {v : Value} :
    v ∈ (d.rootsOf rule form).map value ↔
      ∃ gloss ∈ rule.glosses, v = (rule.rootOf d.speller form gloss).value := by
  rw [rootsOf, List.map_map, List.mem_map]
  exact exists_congr fun gloss ↦ and_congr_right fun _ ↦ eq_comm

/-- What is made of a list is made of its lines. -/
theorem mem_deriveFrom_iff {index : WordIndex} {rules : List String} {roots : List LexiconEntry}
    (h : d.deriveFrom index rules = .ok roots) {e : LexiconEntry} :
    e ∈ roots ↔ ∃ before raw after earlier first, rules = before ++ raw :: after ∧
      d.deriveFrom index before = .ok earlier ∧
      d.deriveLine (earlier.foldl WordIndex.register index) raw = .ok first ∧ e ∈ first := by
  induction rules generalizing index roots with
  | nil =>
    cases h
    constructor
    · exact fun he ↦ absurd he List.not_mem_nil
    · rintro ⟨before, raw, after, _, _, hrules, _⟩
      exact absurd hrules (by simp)
  | cons raw rest ih =>
    obtain ⟨first, others, hfirst, hothers, rfl⟩ := deriveFrom_cons_eq_ok.1 h
    rw [List.mem_append, ih hothers]
    constructor
    · rintro (he | ⟨before, raw', after, earlier, line, rfl, hearlier, hline, he⟩)
      · exact ⟨[], raw, rest, [], first, rfl, rfl, hfirst, he⟩
      · refine ⟨raw :: before, raw', after, first ++ earlier, line, rfl,
          deriveFrom_cons_eq_ok.2 ⟨first, earlier, hfirst, hearlier, rfl⟩, ?_, he⟩
        rwa [List.foldl_append]
    · rintro ⟨_ | ⟨raw', before⟩, raw'', after, earlier, line, hrules, hearlier, hline, he⟩
      · cases hrules
        cases hearlier
        cases hfirst.symm.trans hline
        exact .inl he
      · cases hrules
        obtain ⟨first', earlier', hfirst', hearlier', rfl⟩ := deriveFrom_cons_eq_ok.1 hearlier
        cases hfirst.symm.trans hfirst'
        rw [List.foldl_append] at hline
        exact .inr ⟨before, raw'', after, earlier', line, rfl, hearlier', hline, he⟩

/-- A run comes to each of its lines, and what it makes there is there at the end. -/
theorem exists_line_of_deriveFrom {index : WordIndex} {before after : List String} {raw : String}
    {roots : List LexiconEntry} (h : d.deriveFrom index (before ++ raw :: after) = .ok roots) :
    ∃ earlier first, d.deriveFrom index before = .ok earlier ∧
      d.deriveLine (earlier.foldl WordIndex.register index) raw = .ok first ∧ first ⊆ roots := by
  have hall := h
  rw [deriveFrom_append, bind_eq_ok] at h
  obtain ⟨earlier, hearlier, h⟩ := h
  obtain ⟨others, hothers, _⟩ := bind_eq_ok.1 h
  obtain ⟨first, _, hfirst, _, _⟩ := deriveFrom_cons_eq_ok.1 hothers
  exact ⟨earlier, first, hearlier, hfirst, fun e he ↦
    (mem_deriveFrom_iff hall).2 ⟨before, raw, after, earlier, first, rfl, hearlier, hfirst, he⟩⟩

variable {lexicon earlier roots : List LexiconEntry} {rules : List String}

/-- What a line makes, if it is not blank, are the roots of its glosses. -/
theorem exists_forms_of_deriveLine {before : List String} {raw : String}
    {first : List LexiconEntry}
    (hearlier : d.deriveFrom (WordIndex.ofLexicon lexicon) before = .ok earlier)
    (hfirst : d.deriveLine (earlier.foldl WordIndex.register (WordIndex.ofLexicon lexicon)) raw
      = .ok first) (hraw : trim raw.toList ≠ []) :
    ∃ rule form, d.Forms lexicon before raw rule form ∧ first = d.rootsOf rule form := by
  rcases deriveLine_eq_ok.1 hfirst with ⟨hnil, _⟩ | ⟨rule, form, _, hread, hform, _, rfl⟩
  · exact absurd hnil hraw
  · rw [WordIndex.foldl_register_ofLexicon fun e he ↦ (mem_deriveFrom hearlier e he).1] at hform
    exact ⟨rule, form, ⟨hread, earlier, (derive_eq ..).trans hearlier, hform⟩, rfl⟩

/-- **No derivation is lost.** -/
theorem exists_forms {before after : List String} {raw : String}
    (h : d.derive (before ++ raw :: after) lexicon = .ok roots) (hraw : trim raw.toList ≠ []) :
    ∃ rule form, d.Forms lexicon before raw rule form ∧
      ∀ gloss ∈ rule.glosses, (rule.rootOf d.speller form gloss).value ∈ roots.map value := by
  rw [derive_eq] at h
  obtain ⟨earlier, first, hearlier, hfirst, hsubset⟩ := exists_line_of_deriveFrom h
  obtain ⟨rule, form, hforms, rfl⟩ := exists_forms_of_deriveLine hearlier hfirst hraw
  exact ⟨rule, form, hforms, fun gloss hgloss ↦
    List.map_subset _ hsubset (value_mem_rootsOf.2 ⟨gloss, hgloss, rfl⟩)⟩

/-- **No derivation is invented.** -/
theorem exists_forms_of_mem (h : d.derive rules lexicon = .ok roots) {e : LexiconEntry}
    (he : e ∈ roots) :
    ∃ before raw after rule form, rules = before ++ raw :: after ∧
      d.Forms lexicon before raw rule form ∧
      ∃ gloss ∈ rule.glosses, e.sameValue (rule.rootOf d.speller form gloss) = true := by
  rw [derive_eq] at h
  obtain ⟨before, raw, after, earlier, first, hrules, hearlier, hfirst, he⟩ :=
    (mem_deriveFrom_iff h).1 he
  have hraw : trim raw.toList ≠ [] := by
    intro hnil
    rcases deriveLine_eq_ok.1 hfirst with ⟨_, rfl⟩ | ⟨_, _, hne, _⟩
    · exact absurd he List.not_mem_nil
    · exact hne hnil
  obtain ⟨rule, form, hforms, rfl⟩ := exists_forms_of_deriveLine hearlier hfirst hraw
  obtain ⟨gloss, hgloss, hvalue⟩ := value_mem_rootsOf.1 (List.mem_map_of_mem he)
  exact ⟨before, raw, after, rule, form, hrules, hforms, gloss, hgloss, sameValue_iff.2 hvalue⟩

end Deriver

end Glossopoeia
