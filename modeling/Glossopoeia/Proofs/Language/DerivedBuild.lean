import Glossopoeia.Proofs.Language.Upkeep

/-!
# Builds with derivation

A lexicon can be derived as it is built or afterwards.  The two ways differ in the words that the
derivations look their parts up in: a build has them as they were collected, a document without
repetitions and in order.  Where a part is a gloss of several roots, the last of them is taken, so
the order can decide how a derived word sounds.  That is as far as the difference goes: the words
that are not derived are the same either way, and so is what the derived ones mean.  Nor does the
order decide whether a part is found, so only a derived word without any sound can make one way fail
where the other succeeds.

If every part names alike in both orders, the two ways agree altogether.  A part that is clear, in
that the roots that it may name have one gloss and one sound, names alike in all orders.
-/

set_option autoImplicit false

namespace Glossopoeia

open LexiconEntry Outcome

/-! ## The same meanings -/

/-- The entries mean the same and have the same part of speech and labels. -/
structure LexiconEntry.SameMeaning (a b : LexiconEntry) : Prop where
  /-- They mean the same. -/
  english : a.english = b.english
  /-- They have the same part of speech. -/
  partOfSpeech : a.partOfSpeech = b.partOfSpeech
  /-- They have the same labels, written one after the other. -/
  labels : a.declensionKey = b.declensionKey

namespace LexiconEntry

theorem sameMeaning_of_value_eq {a b : LexiconEntry} (h : a.value = b.value) : a.SameMeaning b :=
  ⟨congrArg Value.english h, congrArg Value.partOfSpeech h, congrArg Value.declensionKey h⟩

theorem sameMeaning_of_sense_eq {a b : LexiconEntry} (h : a.sense = b.sense) :
    a.SameMeaning b := by
  have henglish : a.sense.english = b.sense.english := congrArg LexiconEntry.english h
  have hpos : a.sense.partOfSpeech = b.sense.partOfSpeech := congrArg LexiconEntry.partOfSpeech h
  have hlabels : a.sense.declensionKey = b.sense.declensionKey := congrArg declensionKey h
  exact ⟨henglish, hpos, hlabels⟩

end LexiconEntry

/-- Words of the same values and roots of the same senses make lexicons of the same meanings. -/
theorem exists_sameMeaning_of_mem_tidied (order : LexicalOrder)
    {words words' roots roots' : List LexiconEntry}
    (hwords : ∀ v, v ∈ words.map value → v ∈ words'.map value)
    (hroots : roots.map sense = roots'.map sense) {e : LexiconEntry}
    (he : e ∈ order.sortEntries (dedupLexicon (words ++ roots))) :
    ∃ e' ∈ order.sortEntries (dedupLexicon (words' ++ roots')), e.SameMeaning e' := by
  have hvalue : ∀ v ∈ (words' ++ roots').map value,
      ∃ e' ∈ order.sortEntries (dedupLexicon (words' ++ roots')), e'.value = v :=
    fun v hv ↦ List.mem_map.1 ((mem_values_tidied order).2 hv)
  rw [List.map_append] at hvalue
  rcases List.mem_append.1 (mem_of_mem_tidied order he) with he | he
  · obtain ⟨e', he', hsame⟩ := hvalue e.value
      (List.mem_append_left _ (hwords _ (List.mem_map_of_mem he)))
    exact ⟨e', he', sameMeaning_of_value_eq hsame.symm⟩
  · have hsense : e.sense ∈ roots'.map sense := hroots ▸ List.mem_map_of_mem he
    obtain ⟨r, hr, hsame⟩ := List.mem_map.1 hsense
    obtain ⟨e', he', hvalue'⟩ := hvalue r.value (List.mem_append_right _ (List.mem_map_of_mem hr))
    have hmeaning := sameMeaning_of_sense_eq hsame.symm
    have hmeaning' := sameMeaning_of_value_eq hvalue'.symm
    exact ⟨e', he', hmeaning.english.trans hmeaning'.english,
      hmeaning.partOfSpeech.trans hmeaning'.partOfSpeech, hmeaning.labels.trans hmeaning'.labels⟩

namespace Blueprint

/-! ## The words that parts are looked up in -/

/-- Every part of a derivation names alike among the words as they were collected and as a document
has them. -/
def NamesAlike (b : Blueprint) (words : List LexiconEntry) : Prop :=
  ∀ raw ∈ b.derivedLines, ∀ part ∈ DerivationRule.partsOf raw,
    (WordIndex.ofLexicon words).NamesAlike (WordIndex.ofLexicon (b.tidy words)) part

/-- Every part of a derivation is clear. -/
def IsClear (b : Blueprint) (words : List LexiconEntry) : Prop :=
  ∀ raw ∈ b.derivedLines, ∀ part ∈ DerivationRule.partsOf raw, part.IsClear words

theorem rootsFrom_tidy {b : Blueprint} {words : List LexiconEntry} (h : b.NamesAlike words) :
    b.rootsFrom words = b.rootsFrom (b.tidy words) :=
  deriveWords_congr h

/-- A document has the roots that it was built from but for their order and for repetitions. -/
theorem isThinned_tidy {save : Json} {o : BuildOptions} {s : SaveFile} {b : Blueprint}
    {words : List LexiconEntry} (hb : ofSave save o = .ok (s, b)) (hwords : b.words = .ok words) :
    WordIndex.IsThinned words (b.tidy words) := by
  have hsub : ∀ e ∈ b.tidy words, e ∈ words := fun e he ↦ mem_of_mem_tidied b.order he
  refine ⟨hsub, fun e he hroot ↦ ?_⟩
  obtain ⟨e', he', hvalue⟩ := List.mem_map.1
    ((mem_values_tidied b.order).2 (List.mem_map_of_mem (f := value) he))
  refine ⟨e', he', ?_, congrArg Value.english hvalue, congrArg Value.partOfSpeech hvalue⟩
  rw [isRoot_eq_of_value_eq (isBasic_of_mem_words hb hwords e' (hsub e' he'))
    (isBasic_of_mem_words hb hwords e he) hvalue, hroot]

/-- Clear parts name alike. -/
theorem namesAlike_of_isClear {save : Json} {o : BuildOptions} {s : SaveFile} {b : Blueprint}
    {words : List LexiconEntry} (hb : ofSave save o = .ok (s, b)) (hwords : b.words = .ok words)
    (h : b.IsClear words) : b.NamesAlike words :=
  fun raw hraw part hpart ↦ (isThinned_tidy hb hwords).namesAlike (h raw hraw part hpart)

end Blueprint

/-! ## Both ways -/

section Derive

variable {save : Json} {o : BuildOptions}

/-- The words of a document that is not declined are derived as the blueprint has it. -/
theorem derivedFamilies_document {s : SaveFile} {b : Blueprint}
    (hb : Blueprint.ofSave save o = .ok (s, b)) {o' : BuildOptions} (hdecline : o'.decline = false)
    (lexicon : List LexiconEntry) :
    (b.document o' s save lexicon).derivedFamilies = b.rootsFrom lexicon := by
  have hspeller : Speller.ofSoundMap (b.document o' s save lexicon).soundMap = .ok b.speller :=
    (Blueprint.isOf_of_ofSave hb).speller
  rw [Language.derivedFamilies, hspeller, Blueprint.rootsFrom, ← hdecline]
  rfl

/-- Deriving the words of a document that is not declined: it succeeds if the derivations do, and
adds their roots. -/
theorem derive_document_eq_ok {s : SaveFile} {b : Blueprint}
    (hb : Blueprint.ofSave save o = .ok (s, b)) (o' : BuildOptions) (hdecline : o'.decline = false)
    (lexicon : List LexiconEntry) {l : Language} :
    (∃ k, Upkeep.derive.run (b.document o' s save lexicon) = (.ok k, l)) ↔
      ∃ roots, b.rootsFrom lexicon = .ok roots ∧
        l = b.document { o' with derive := true } s save (b.tidy (lexicon ++ roots)) := by
  simp only [Upkeep.run_eq_ok, Upkeep.collected, derivedFamilies_document hb hdecline, map_eq_ok]
  constructor
  · rintro ⟨_, _, ⟨roots, hroots, rfl⟩, rfl, rfl⟩
    exact ⟨roots, hroots, rfl⟩
  · rintro ⟨roots, hroots, rfl⟩
    exact ⟨_, _, ⟨roots, hroots, rfl⟩, rfl, rfl⟩

/-- What is built without derivation and derived then: the roots come from the tidied words. -/
theorem build_then_derive_eq_ok (hdecline : o.decline = false) {l : Language} :
    (∃ plain k, buildLanguage save { o with derive := false } = .ok plain ∧
      Upkeep.derive.run plain = (.ok k, l)) ↔
      ∃ s b words roots, Blueprint.ofSave save o = .ok (s, b) ∧ b.words = .ok words ∧
        b.rootsFrom (b.tidy words) = .ok roots ∧
        l = b.document { o with derive := true } s save (b.tidy (b.tidy words ++ roots)) := by
  constructor
  · rintro ⟨plain, k, hplain, hrun⟩
    obtain ⟨s, b, words, hb, hentries, rfl⟩ := buildLanguage_eq_ok.1 hplain
    have hwords := (Blueprint.collected_plain_eq_ok hdecline).1 hentries
    obtain ⟨roots, hroots, hl⟩ :=
      (derive_document_eq_ok hb { o with derive := false } hdecline _).1 ⟨k, hrun⟩
    exact ⟨s, b, words, roots, hb, hwords, hroots, hl⟩
  · rintro ⟨s, b, words, roots, hb, hwords, hroots, hl⟩
    obtain ⟨k, hrun⟩ := (derive_document_eq_ok hb { o with derive := false } hdecline
      (b.tidy words)).2 ⟨roots, hroots, hl⟩
    have hentries := (Blueprint.collected_plain_eq_ok hdecline).2 hwords
    exact ⟨_, k, buildLanguage_eq_ok.2 ⟨s, b, words, hb, hentries, rfl⟩, hrun⟩

/-- What is built with derivation at once: the roots come from the words as they were collected. -/
theorem build_derived_eq_ok (hdecline : o.decline = false) {l : Language} :
    buildLanguage save { o with derive := true } = .ok l ↔
      ∃ s b words roots, Blueprint.ofSave save o = .ok (s, b) ∧ b.words = .ok words ∧
        b.rootsFrom words = .ok roots ∧
        l = b.document { o with derive := true } s save (b.tidy (words ++ roots)) := by
  rw [buildLanguage_eq_ok]
  constructor
  · rintro ⟨s, b, entries, hb, hentries, rfl⟩
    obtain ⟨words, roots, hwords, hroots, rfl⟩ :=
      (Blueprint.collected_derived_eq_ok hdecline).1 hentries
    exact ⟨s, b, words, roots, hb, hwords, hroots, rfl⟩
  · rintro ⟨s, b, words, roots, hb, hwords, hroots, rfl⟩
    have hentries := (Blueprint.collected_derived_eq_ok hdecline).2
      ⟨words, roots, hwords, hroots, rfl⟩
    exact ⟨s, b, words ++ roots, hb, hentries, rfl⟩

/-- A build fails as its derivations do. -/
theorem build_derived_eq_error (hdecline : o.decline = false) {s : SaveFile} {b : Blueprint}
    (hb : Blueprint.ofSave save o = .ok (s, b)) {words : List LexiconEntry}
    (hwords : b.words = .ok words) {e : Error} (he : b.rootsFrom words = .error e) :
    buildLanguage save { o with derive := true } = .error e := by
  obtain ⟨hs, hb⟩ := Blueprint.ofSave_eq_ok.1 hb
  have hlexicon : b.lexicon { o with derive := true } = .error e := by
    rw [Blueprint.rootsFrom, ← hdecline] at he
    rw [Blueprint.lexicon, hwords]
    show (Blueprint.withDerived b { o with derive := true } words >>= _) = _
    rw [Blueprint.withDerived, if_pos rfl]
    show (deriveWords _ _ _ _ _ o.decline >>= _) >>= _ = _
    rw [he]
    rfl
  rw [buildLanguage, hs]
  show (Blueprint.ofSaveFile s o >>= _) = _
  rw [hb]
  show (b.lexicon { o with derive := true } >>= _) = _
  rw [hlexicon]
  rfl

/-- A document fails as its derivations do. -/
theorem derive_document_eq_error {s : SaveFile} {b : Blueprint}
    (hb : Blueprint.ofSave save o = .ok (s, b)) (o' : BuildOptions) (hdecline : o'.decline = false)
    {lexicon : List LexiconEntry} {e : Error} {l : Language}
    (hrun : Upkeep.derive.run (b.document o' s save lexicon) = (.error e, l)) :
    b.rootsFrom lexicon = .error e := by
  rw [← derivedFamilies_document hb hdecline]
  have hcollected := (Upkeep.run_eq_error.1 hrun).1
  rw [Upkeep.collected] at hcollected
  cases hfamilies : (b.document o' s save lexicon).derivedFamilies with
  | error e' =>
    rw [hfamilies] at hcollected
    cases hcollected
    rfl
  | ok roots =>
    rw [hfamilies] at hcollected
    cases hcollected

/-- A build with derivation and a build without it that is derived afterwards, if both succeed: the
documents come from the same blueprint and words, and differ in the roots. -/
theorem both_derived_eq_ok (hdecline : o.decline = false) {l plain l' : Language} {k : Nat}
    (hl : buildLanguage save { o with derive := true } = .ok l)
    (hplain : buildLanguage save { o with derive := false } = .ok plain)
    (hrun : Upkeep.derive.run plain = (.ok k, l')) :
    ∃ s b words roots roots', Blueprint.ofSave save o = .ok (s, b) ∧ b.words = .ok words ∧
      b.rootsFrom words = .ok roots ∧ b.rootsFrom (b.tidy words) = .ok roots' ∧
      l = b.document { o with derive := true } s save (b.tidy (words ++ roots)) ∧
      l' = b.document { o with derive := true } s save (b.tidy (b.tidy words ++ roots')) := by
  obtain ⟨s, b, words, roots, hb, hwords, hroots, hl⟩ := (build_derived_eq_ok hdecline).1 hl
  obtain ⟨s', b', words', roots', hb', hwords', hroots', hl'⟩ :=
    (build_then_derive_eq_ok hdecline).1 ⟨plain, k, hplain, hrun⟩
  rw [hb] at hb'
  cases hb'
  rw [hwords] at hwords'
  cases hwords'
  exact ⟨s, b, words, roots, roots', hb, hwords, hroots, hroots', hl, hl'⟩

/-- If a build with derivation succeeds, then deriving afterwards can fail only for the sound of a
root. -/
theorem isSoundless_of_derive_error (hdecline : o.decline = false) {l : Language}
    (hl : buildLanguage save { o with derive := true } = .ok l) :
    ∃ plain, buildLanguage save { o with derive := false } = .ok plain ∧
      ∀ e l', Upkeep.derive.run plain = (.error e, l') → e.IsSoundless := by
  obtain ⟨s, b, words, roots, hb, hwords, hroots, _⟩ := (build_derived_eq_ok hdecline).1 hl
  have hentries := (Blueprint.collected_plain_eq_ok hdecline).2 hwords
  refine ⟨_, buildLanguage_eq_ok.2 ⟨s, b, words, hb, hentries, rfl⟩, fun e l' hrun ↦ ?_⟩
  have he : b.rootsFrom (b.tidy words) = .error e :=
    derive_document_eq_error hb { o with derive := false } hdecline hrun
  rcases deriveWords_resolvesAlike (Blueprint.isThinned_tidy hb hwords).resolvesAlike hroots with
    ⟨roots', hroots'⟩ | ⟨e', he', hsoundless⟩
  · cases he.symm.trans hroots'
  · cases he.symm.trans he'
    exact hsoundless

/-- If deriving afterwards succeeds, then a build with derivation can fail only for the sound of a
root. -/
theorem isSoundless_of_build_error (hdecline : o.decline = false) {plain l' : Language} {k : Nat}
    {e : Error} (hplain : buildLanguage save { o with derive := false } = .ok plain)
    (hrun : Upkeep.derive.run plain = (.ok k, l'))
    (he : buildLanguage save { o with derive := true } = .error e) : e.IsSoundless := by
  obtain ⟨s, b, words, roots, hb, hwords, hroots, _⟩ :=
    (build_then_derive_eq_ok hdecline).1 ⟨plain, k, hplain, hrun⟩
  have hresolves := (Blueprint.isThinned_tidy hb hwords).resolvesAlike
  rcases deriveWords_resolvesAlike (fun word pos ↦ (hresolves word pos).symm) hroots with
    ⟨roots', hroots'⟩ | ⟨e', he', hsoundless⟩
  · have hl := (build_derived_eq_ok hdecline).2 ⟨s, b, words, roots', hb, hwords, hroots', rfl⟩
    cases he.symm.trans hl
  · cases he.symm.trans (build_derived_eq_error hdecline hb hwords he')
    exact hsoundless

/-- What is not derived is the words that are there without the roots, and in the same places. -/
theorem filter_underived_tidy {b : Blueprint} {words words' roots : List LexiconEntry}
    (hwords : ∀ e ∈ words, e.derived = false) (hroots : b.rootsFrom words' = .ok roots) :
    (b.tidy (words ++ roots)).filter (fun e ↦ !e.derived) = b.tidy words := by
  refine filter_tidied_append b.order (fun e he ↦ ?_) fun e he ↦ ?_
  · rw [hwords e he, Bool.not_false]
  · rw [(mem_deriveWords hroots e he).1, Bool.not_true]

/-- The roots that two orders of the words lead to have the same senses. -/
theorem map_sense_rootsFrom {b : Blueprint} {words words' roots roots' : List LexiconEntry}
    (h : b.rootsFrom words = .ok roots) (h' : b.rootsFrom words' = .ok roots') :
    roots.map sense = roots'.map sense := by
  obtain ⟨d, _, hd⟩ := deriveWords_false_eq_ok.1 h
  obtain ⟨d', _, hd'⟩ := deriveWords_false_eq_ok.1 h'
  exact Deriver.map_sense_deriveFrom hd hd'

end Derive

/-- **A build with derivation against a build without it, derived afterwards.**  The words that are
not derived are the same, and so is what the lexicons mean; and only a root without a sound lets one
fail where the other succeeds.  If every part names alike in the order of the save file and in that
of the alphabet, then the one succeeds exactly if the other does, and with the same words.  That
every part is clear is enough for it. -/
theorem buildLanguage_derive (save : Json) (o : BuildOptions) (hdecline : o.decline = false) :
    (∀ l plain k l', buildLanguage save { o with derive := true } = .ok l →
      buildLanguage save { o with derive := false } = .ok plain →
      Upkeep.derive.run plain = (.ok k, l') →
        l.lexicon.filter (fun e ↦ !e.derived) = l'.lexicon.filter (fun e ↦ !e.derived) ∧
        (∀ e ∈ l.lexicon, ∃ e' ∈ l'.lexicon, e.SameMeaning e') ∧
        (∀ e ∈ l'.lexicon, ∃ e' ∈ l.lexicon, e.SameMeaning e') ∧
        l = { l' with lexicon := l.lexicon }) ∧
    (∀ l, buildLanguage save { o with derive := true } = .ok l →
      ∃ plain, buildLanguage save { o with derive := false } = .ok plain ∧
        ∀ e l', Upkeep.derive.run plain = (.error e, l') → e.IsSoundless) ∧
    (∀ plain k l' e, buildLanguage save { o with derive := false } = .ok plain →
      Upkeep.derive.run plain = (.ok k, l') →
      buildLanguage save { o with derive := true } = .error e → e.IsSoundless) ∧
    ((∀ s b words, Blueprint.ofSave save o = .ok (s, b) → b.words = .ok words →
        b.NamesAlike words) →
      ((∃ l, buildLanguage save { o with derive := true } = .ok l) ↔
        ∃ plain k l', buildLanguage save { o with derive := false } = .ok plain ∧
          Upkeep.derive.run plain = (.ok k, l')) ∧
      ∀ l plain k l', buildLanguage save { o with derive := true } = .ok l →
        buildLanguage save { o with derive := false } = .ok plain →
        Upkeep.derive.run plain = (.ok k, l') → SameWords l.lexicon l'.lexicon) ∧
    ∀ s b words, Blueprint.ofSave save o = .ok (s, b) → b.words = .ok words → b.IsClear words →
      b.NamesAlike words := by
  refine ⟨fun l plain k l' hl hplain hrun ↦ ?_, fun l hl ↦ isSoundless_of_derive_error hdecline hl,
    fun plain k l' e ↦ isSoundless_of_build_error hdecline, fun halike ↦ ⟨⟨?_, ?_⟩, ?_⟩, ?_⟩
  · obtain ⟨s, b, words, roots, roots', hb, hwords, hroots, hroots', rfl, rfl⟩ :=
      both_derived_eq_ok hdecline hl hplain hrun
    have hbasic : ∀ e ∈ words, e.derived = false :=
      fun e he ↦ (Blueprint.isBasic_of_mem_words hb hwords e he).not_derived
    have hbasic' : ∀ e ∈ b.tidy words, e.derived = false :=
      fun e he ↦ hbasic e (mem_of_mem_tidied b.order he)
    have htidied : ∀ v, v ∈ (b.tidy words).map value ↔ v ∈ words.map value :=
      fun v ↦ mem_values_tidied b.order
    have hsense := map_sense_rootsFrom hroots hroots'
    refine ⟨?_, fun e he ↦ ?_, fun e he ↦ ?_, rfl⟩
    · show (b.tidy (words ++ roots)).filter _ = (b.tidy (b.tidy words ++ roots')).filter _
      rw [filter_underived_tidy hbasic hroots, filter_underived_tidy hbasic' hroots']
      exact (tidied_tidied b.order words).symm
    · exact exists_sameMeaning_of_mem_tidied b.order (fun v ↦ (htidied v).2) hsense he
    · exact exists_sameMeaning_of_mem_tidied b.order (fun v ↦ (htidied v).1) hsense.symm he
  · rintro ⟨l, hl⟩
    obtain ⟨s, b, words, roots, hb, hwords, hroots, _⟩ := (build_derived_eq_ok hdecline).1 hl
    rw [Blueprint.rootsFrom_tidy (halike s b words hb hwords)] at hroots
    obtain ⟨plain, k, hplain, hrun⟩ := (build_then_derive_eq_ok hdecline).2
      ⟨s, b, words, roots, hb, hwords, hroots, rfl⟩
    exact ⟨plain, k, _, hplain, hrun⟩
  · rintro ⟨plain, k, l', hplain, hrun⟩
    obtain ⟨s, b, words, roots, hb, hwords, hroots, _⟩ :=
      (build_then_derive_eq_ok hdecline).1 ⟨plain, k, hplain, hrun⟩
    rw [← Blueprint.rootsFrom_tidy (halike s b words hb hwords)] at hroots
    exact ⟨_, (build_derived_eq_ok hdecline).2 ⟨s, b, words, roots, hb, hwords, hroots, rfl⟩⟩
  · intro l plain k l' hl hplain hrun
    obtain ⟨s, b, words, roots, roots', hb, hwords, hroots, hroots', rfl, rfl⟩ :=
      both_derived_eq_ok hdecline hl hplain hrun
    rw [Blueprint.rootsFrom_tidy (halike s b words hb hwords), hroots'] at hroots
    cases hroots
    refine sameWords_tidied _ _ fun v ↦ ?_
    rw [List.map_append, List.map_append, List.mem_append, List.mem_append, mem_values_tidied]
  · exact fun s b words hb hwords hclear ↦ Blueprint.namesAlike_of_isClear hb hwords hclear

/-- A home is derived from the one house that there is. -/
theorem isClear_homeSave (s : SaveFile) (b : Blueprint) (words : List LexiconEntry)
    (hb : Blueprint.ofSave homeSave .default = .ok (s, b)) (hwords : b.words = .ok words) :
    b.IsClear words := by
  have hlength : (Blueprint.ofSave homeSave .default >>= fun (_, b) ↦ b.words).map List.length
      = .ok 1 := by decide
  rw [hb] at hlength
  obtain ⟨_, hwords', hone⟩ := map_eq_ok.1 hlength
  cases hwords.symm.trans hwords'
  obtain ⟨e, rfl⟩ := List.length_eq_one_iff.1 hone
  intro raw _ part _ x y hx hy
  rw [List.mem_singleton.1 hx.mem, List.mem_singleton.1 hy.mem]

theorem buildLanguage_derive_homeSave :
    ∃ l plain k l', buildLanguage homeSave { BuildOptions.default with derive := true } = .ok l ∧
      buildLanguage homeSave { BuildOptions.default with derive := false } = .ok plain ∧
      Upkeep.derive.run plain = (.ok k, l') ∧
      SameWords l.lexicon l'.lexicon ∧ l = { l' with lexicon := l.lexicon } := by
  obtain ⟨hmeaning, _, _, hsame, hclear⟩ := buildLanguage_derive homeSave .default rfl
  obtain ⟨hiff, hwords⟩ := hsame fun s b words hb hw ↦
    hclear s b words hb hw (isClear_homeSave s b words hb hw)
  obtain ⟨l, hl⟩ := exists_buildLanguage_homeSave
  obtain ⟨plain, k, l', hplain, hrun⟩ := hiff.1 ⟨l, hl⟩
  exact ⟨l, plain, k, l', hl, hplain, hrun, hwords l plain k l' hl hplain hrun,
    (hmeaning l plain k l' hl hplain hrun).2.2.2⟩

/-! ## A gloss of two roots -/

/-- Two words for a house, and the home that is derived from the last one. -/
def housesSave (noun verb : String) : Json :=
  SaveFile.ofTexts ("house : n = " ++ noun ++ "\nhouse : v = " ++ verb) "home : n = house" ""

/-- Of `to` and `ka`, `ka` is the last as they are written down. -/
theorem values_housesSave :
    (buildLanguage (housesSave "to" "ka") { BuildOptions.default with derive := true }).map
        (fun l ↦ l.lexicon.map value)
      = .ok [⟨"ka", "ka", "house", "v", "root"⟩, ⟨"ka", "ka", "home", "n", "root"⟩,
        ⟨"to", "to", "house", "n", "root"⟩] := by
  simp only [buildLanguage, Blueprint.lexicon, LexicalOrder.sortEntries,
    LexicalOrder.sortByKey_eq_insertionSort]
  decide +kernel

/-- Of `to` and `ka`, `to` is the last as they are ordered. -/
theorem families_housesSave :
    (buildLanguage (housesSave "to" "ka") { BuildOptions.default with derive := false }).map
        (fun l ↦ (l.lexicon.map value, l.derivedFamilies.map (·.map value)))
      = .ok ([⟨"ka", "ka", "house", "v", "root"⟩, ⟨"to", "to", "house", "n", "root"⟩],
        .ok [⟨"to", "to", "home", "n", "root"⟩]) := by
  simp only [buildLanguage, Blueprint.lexicon, LexicalOrder.sortEntries,
    LexicalOrder.sortByKey_eq_insertionSort]
  decide +kernel

/-- Of `ka` and a word without a sound, `ka` is the last as they are ordered. -/
theorem families_housesSave_soundless :
    (buildLanguage (housesSave "ka" "") { BuildOptions.default with derive := false }).map
        (fun l ↦ l.derivedFamilies.map (·.map value))
      = .ok (.ok [⟨"ka", "ka", "home", "n", "root"⟩]) := by
  simp only [buildLanguage, Blueprint.lexicon, LexicalOrder.sortEntries,
    LexicalOrder.sortByKey_eq_insertionSort]
  decide +kernel

/-- The order of two roots with one gloss can decide both what a derived word is and whether there
is one. -/
theorem not_sameWords_housesSave :
    (∃ l plain k l',
      buildLanguage (housesSave "to" "ka") { BuildOptions.default with derive := true } = .ok l ∧
      buildLanguage (housesSave "to" "ka") { BuildOptions.default with derive := false }
        = .ok plain ∧
      Upkeep.derive.run plain = (.ok k, l') ∧
      ∃ e ∈ l.lexicon, ∀ e' ∈ l'.lexicon, e.sameValue e' = false) ∧
    ∃ e plain k l',
      buildLanguage (housesSave "ka" "") { BuildOptions.default with derive := true }
        = .error e ∧
      buildLanguage (housesSave "ka" "") { BuildOptions.default with derive := false }
        = .ok plain ∧
      Upkeep.derive.run plain = (.ok k, l') := by
  constructor
  · obtain ⟨l, hl, hvalues⟩ := map_eq_ok.1 values_housesSave
    obtain ⟨plain, hplain, hpair⟩ := map_eq_ok.1 families_housesSave
    obtain ⟨hwords, hfamilies⟩ := Prod.mk.inj hpair
    obtain ⟨roots, hroots, hrootValues⟩ := map_eq_ok.1 hfamilies
    have hhome : (⟨"ka", "ka", "home", "n", "root"⟩ : Value) ∈ l.lexicon.map value := by
      rw [hvalues]
      decide
    obtain ⟨e, he, hvalue⟩ := List.mem_map.1 hhome
    refine ⟨l, plain, _, _, hl, hplain, Upkeep.derive_run_eq_ok hroots, e, he, fun e' he' ↦ ?_⟩
    have hmem : e'.value ∈ (plain.lexicon ++ roots).map value :=
      List.mem_map_of_mem (mem_of_mem_tidied _ he')
    rw [List.map_append, hwords, hrootValues] at hmem
    rw [sameValue_eq_false_iff, hvalue]
    intro heq
    rw [← heq] at hmem
    exact absurd hmem (by decide)
  · have hfails : (buildLanguage (housesSave "ka" "")
        { BuildOptions.default with derive := true }).isOk = false := by decide +kernel
    obtain ⟨plain, hplain, hfamilies⟩ := map_eq_ok.1 families_housesSave_soundless
    obtain ⟨roots, hroots, _⟩ := map_eq_ok.1 hfamilies
    cases hl : buildLanguage (housesSave "ka" "")
        { BuildOptions.default with derive := true } with
    | error e => exact ⟨e, plain, _, _, rfl, hplain, Upkeep.derive_run_eq_ok hroots⟩
    | ok l =>
      rw [hl] at hfails
      cases hfails

end Glossopoeia
