import Glossopoeia.Proofs.Declension.Slots
import Glossopoeia.Proofs.Lexicon.Spelled

/-!
# The selections behind declined forms

A selection takes some of the slots of a part of speech, at least one, and one rule of each, and
puts the rules to a word in the order of the slots.  Particles take no part, and neither do
conditions among replacements (`AffixRule.Makes`, `Selects`).  This says what a declined form is
without compiled slots, combinations and groups of forms that sound alike.

`Decliner.decline_selections` says that declension is sound and complete for it: every entry is that
of a selection, and every selection has an entry of its form.  Forms are made more than once, since
every form on the way to another is kept as well, and of forms that sound alike one absorbs another
if their labels agree as far as both go.  So the entry of a selection need not bear all of its
labels, nor only those: it agrees with them up to the shorter list.
-/

set_option autoImplicit false

namespace Glossopoeia

open Outcome Text

/-! ## Selections -/

/-- The end of a word that rules of the kind add to. -/
def AffixKind.side (kind : AffixKind) : WordEnd := if kind = .front then .front else .back

/-- A rule of a slot of the given kind, as it is written, makes one form of another. -/
inductive AffixRule.Makes (kind : AffixKind) : AffixRule → List Char → List Char → Prop
  /-- The empty rule keeps the form. -/
  | keep (form : List Char) : Makes kind .empty form form
  /-- An addition is put to the form without its stress mark, at the end that the kind says. -/
  | add (text spelled : String) (form : List Char) :
      Makes kind (.plain text spelled) form
        (attach kind.side text.toList (Variant.unstressed form))
  /-- A condition looks at the form as it stands, and is none for a replacement. -/
  | choose {source : String} {p : Pattern} (hkind : kind ≠ .replacement)
      (hp : compilePattern source = .ok p)
      (spelled thenAdd thenSpelled elseAdd elseSpelled : String) (form : List Char) :
      Makes kind (.conditional source spelled thenAdd thenSpelled elseAdd elseSpelled) form
        (attach kind.side (if p.occursIn form then thenAdd.toList else elseAdd.toList)
          (Variant.unstressed form))
  /-- A substitution is made in the form without its stress mark. -/
  | replace {source replacement : String} {r : Substitution}
      (hr : compileSubstitution source replacement = .ok r) (spelled spelledReplacement : String)
      (form : List Char) :
      Makes kind (.substitute source spelled replacement spelledReplacement) form
        (r.apply (Variant.unstressed form))

/-- One rule of each slot, put to a form one after the other, makes another form under the labels
of the rules. -/
inductive Selects : List AffixSlot → List Char → List String → List Char → Prop
  | nil (form : List Char) : Selects [] form [] form
  | cons {slot : AffixSlot} {rule : DeclensionRule} {slots : List AffixSlot}
      {form next last : List Char} {labels : List String} (hrule : rule ∈ slot.rules)
      (hmakes : rule.affix.Makes slot.kind form next) (hrest : Selects slots next labels last) :
      Selects (slot :: slots) form (rule.declension :: labels) last

/-- The slots of a part of speech in the order of the names of their kinds; those of one kind stay
as they are. -/
def AffixMap.inOrder (map : AffixMap) (pos : String) : List AffixSlot :=
  ((map.get? pos).getD []).mergeSort fun a b ↦ decide (a.kind.name ≤ b.kind.name)

/-- Those of them that a selection can take. -/
def AffixMap.selectable (map : AffixMap) (pos : String) : List AffixSlot :=
  (map.inOrder pos).filter (·.kind ≠ .particle)

/-- The slots taken make the form under the labels from what the word sounds like. -/
structure AffixMap.IsSelection (map : AffixMap) (w : RootWord) (form : List Char)
    (labels : List String) (slots : List AffixSlot) : Prop where
  /-- A slot is taken. -/
  ne_nil : slots ≠ []
  /-- The slots are taken in their order. -/
  sublist : slots.Sublist (map.selectable w.partOfSpeech)
  /-- Their rules make the form. -/
  selects : Selects slots w.phonetic.toList labels form

/-- The entry is that of a form of the word under the labels, for one of its glosses. -/
structure LexiconEntry.IsForm (speller : Speller) (w : RootWord) (gloss : String)
    (form : List Char) (labels : List String) (e : LexiconEntry) : Prop where
  /-- It sounds like the form, which is trimmed. -/
  phonetic : e.phonetic = trimString (String.ofList form)
  /-- It is spelled like the form. -/
  spelled : e.spelled = speller.spell (String.ofList form)
  /-- It has the gloss. -/
  english : e.english = trimString gloss
  /-- It has the part of speech of the word. -/
  partOfSpeech : e.partOfSpeech = trimString w.partOfSpeech
  /-- It has the labels. -/
  declensions : e.declensions = labels
  /-- It is derived if the word is. -/
  derived : e.derived = w.derived
  /-- It is declined. -/
  declined : e.declined = true
  /-- It carries the record of the word. -/
  metadata : e.metadata = .object [("source", .object [("declined_word", w.source)])]

/-! ## Rules, as written and as compiled -/

theorem CompiledSlot.isUsable_conditional (kind : AffixKind)
    (declension source spelled thenAdd thenSpelled elseAdd elseSpelled : String) :
    isUsable kind ⟨declension,
      .conditional source spelled thenAdd thenSpelled elseAdd elseSpelled⟩ = true
        ↔ kind ≠ .replacement := by
  cases kind <;> simp [isUsable]

theorem AffixRule.Makes.isUsable {kind : AffixKind} {rule : DeclensionRule}
    {form next : List Char} (h : rule.affix.Makes kind form next) :
    CompiledSlot.isUsable kind rule = true := by
  obtain ⟨declension, affix⟩ := rule
  cases h with
  | choose hkind => exact (CompiledSlot.isUsable_conditional ..).2 hkind
  | _ => cases kind <;> rfl

/-- What a usable rule makes is what it is compiled to. -/
theorem Transform.makes_iff {kind : AffixKind} {rule : DeclensionRule} {t : Transform}
    (husable : CompiledSlot.isUsable kind rule = true) (h : ofRule rule.affix = .ok t)
    {form next : List Char} :
    rule.affix.Makes kind form next
      ↔ t.apply kind.side form (Variant.unstressed form) = next := by
  obtain ⟨declension, affix⟩ := rule
  cases affix with
  | substitute source spelled replacement spelledReplacement =>
    obtain ⟨r, hr, rfl⟩ := map_eq_ok.1 h
    refine ⟨fun hmakes ↦ ?_, fun happly ↦ happly ▸ .replace hr ..⟩
    cases hmakes with
    | replace hr' =>
      cases hr.symm.trans hr'
      rfl
  | conditional source spelled thenAdd thenSpelled elseAdd elseSpelled =>
    obtain ⟨p, hp, rfl⟩ := map_eq_ok.1 h
    have hkind := (CompiledSlot.isUsable_conditional ..).1 husable
    refine ⟨fun hmakes ↦ ?_, fun happly ↦ happly ▸ .choose hkind hp ..⟩
    cases hmakes with
    | choose _ hp' =>
      cases hp.symm.trans hp'
      rfl
  | plain text spelled =>
    cases h
    exact ⟨fun hmakes ↦ by cases hmakes; rfl, fun happly ↦ happly ▸ .add text spelled form⟩
  | empty =>
    cases h
    exact ⟨fun hmakes ↦ by cases hmakes; rfl, fun happly ↦ happly ▸ .keep form⟩

/-- A compiled slot makes of a form what the slot does, under the same label. -/
theorem CompiledSlot.makes_iff {slot : AffixSlot} {compiled : CompiledSlot}
    (h : ofSlot slot = .ok compiled) {form next : List Char} {label : String} :
    (∃ rule ∈ slot.rules, rule.affix.Makes slot.kind form next ∧ rule.declension = label)
      ↔ ∃ r ∈ compiled.rules,
        r.transform.apply compiled.position form (Variant.unstressed form) = next ∧
          r.declension = label := by
  rw [ofSlot, bind_eq_ok] at h
  obtain ⟨rules, hrules, h⟩ := h
  rw [← pure_eq_ok.1 h]
  constructor
  · rintro ⟨rule, hrule, hmakes, rfl⟩
    obtain ⟨r, hr, hcompiled⟩ :=
      exists_mem_of_mapM hrules rule (List.mem_filter.2 ⟨hrule, hmakes.isUsable⟩)
    obtain ⟨t, ht, heq⟩ := bind_eq_ok.1 hcompiled
    rw [← pure_eq_ok.1 heq] at hr
    exact ⟨_, hr, (Transform.makes_iff hmakes.isUsable ht).1 hmakes, rfl⟩
  · rintro ⟨r, hr, happly, rfl⟩
    obtain ⟨rule, hrule, hcompiled⟩ := exists_of_mem_mapM hrules r hr
    obtain ⟨hmem, husable⟩ := List.mem_filter.1 hrule
    obtain ⟨t, ht, heq⟩ := bind_eq_ok.1 hcompiled
    rw [← pure_eq_ok.1 heq] at happly ⊢
    exact ⟨rule, hmem, (Transform.makes_iff husable ht).2 happly, rfl⟩

theorem CompiledSlot.kind_of_ofSlot {slot : AffixSlot} {compiled : CompiledSlot}
    (h : ofSlot slot = .ok compiled) : compiled.kind = slot.kind := (exists_rule_of_ofSlot h).1

theorem AffixKind.name_le_name_iff (a b : AffixKind) : a.name ≤ b.name ↔ a.rank ≤ b.rank := by
  cases a <;> cases b <;> decide

/-- The slots of a decliner, each beside the slot that it is compiled from. -/
theorem Decliner.exists_pairs_of_ofAffixMap {map : AffixMap} {speller : Speller} {d : Decliner}
    (h : ofAffixMap map speller = .ok d) (pos : String) :
    ∃ pairs : List (AffixSlot × CompiledSlot), pairs.map Prod.fst = map.inOrder pos ∧
      pairs.map Prod.snd = d.slotsOf pos ∧ ∀ p ∈ pairs, CompiledSlot.ofSlot p.1 = .ok p.2 := by
  obtain ⟨compiled, hcompiled, hslots⟩ := slotsOf_of_ofAffixMap h pos
  obtain ⟨pairs, hsources, rfl, hpairs⟩ := exists_pairs_of_mapM hcompiled
  refine ⟨pairs.mergeSort fun a b ↦ decide (a.1.kind.name ≤ b.1.kind.name), ?_, ?_, ?_⟩
  · rw [AffixMap.inOrder, ← hsources]
    exact List.map_mergeSort fun a _ b _ ↦ rfl
  · rw [hslots, sortSlots]
    refine List.map_mergeSort fun a ha b hb ↦ ?_
    rw [CompiledSlot.kind_of_ofSlot (hpairs a ha), CompiledSlot.kind_of_ofSlot (hpairs b hb)]
    exact decide_eq_decide.2 (AffixKind.name_le_name_iff _ _)
  · exact fun p hp ↦ hpairs p (List.mem_mergeSort.1 hp)

/-- What a selection can take is what the slots of a decliner other than particles come from. -/
theorem Decliner.mapM_selectable {map : AffixMap} {speller : Speller} {d : Decliner}
    (h : ofAffixMap map speller = .ok d) (pos : String) :
    (map.selectable pos).mapM CompiledSlot.ofSlot
      = .ok ((d.slotsOf pos).filter (·.kind ≠ .particle)) := by
  obtain ⟨pairs, hsources, hslots, hpairs⟩ := exists_pairs_of_ofAffixMap h pos
  have hsame : pairs.filter ((fun slot : CompiledSlot ↦ decide (slot.kind ≠ .particle)) ∘ Prod.snd)
      = pairs.filter ((fun slot : AffixSlot ↦ decide (slot.kind ≠ .particle)) ∘ Prod.fst) :=
    List.filter_congr fun p hp ↦ by simp [CompiledSlot.kind_of_ofSlot (hpairs p hp)]
  rw [AffixMap.selectable, ← hsources, ← hslots, List.filter_map, List.filter_map, List.mapM_map,
    hsame]
  exact mapM_eq_ok_map fun p hp ↦ hpairs p (List.mem_of_mem_filter hp)

/-! ## Forms and selections -/

namespace Variant

variable {pairs : List (AffixSlot × CompiledSlot)} {pos : String} {form : List Char}

/-- Every form that slots make is that of a selection: of the first slots, as far as the form has
come. -/
theorem exists_selects_of_mem_expand
    (hpairs : ∀ p ∈ pairs, CompiledSlot.ofSlot p.1 = .ok p.2) {labels : List String} {v : Variant}
    (hv : v ∈ expand pos (pairs.map Prod.snd) form labels) :
    ∃ slots, slots ≠ [] ∧ slots <+: pairs.map Prod.fst ∧ (∀ slot ∈ slots, slot.kind ≠ .particle) ∧
      v.partOfSpeech = pos ∧
      ∃ new, Selects slots form new v.phonetic ∧ v.declension = labels ++ new := by
  induction pairs generalizing form labels with
  | nil => exact absurd hv List.not_mem_nil
  | cons p rest ih =>
    obtain ⟨hp, hrest⟩ := List.forall_mem_cons.1 hpairs
    rw [List.map_cons, expand, CompiledSlot.kind_of_ofSlot hp] at hv
    split at hv
    · exact absurd hv List.not_mem_nil
    · next hkind =>
      obtain ⟨r, hr, hv⟩ := List.mem_flatMap.1 hv
      obtain ⟨rule, hrule, hmakes, hlabel⟩ := (CompiledSlot.makes_iff hp).2 ⟨r, hr, rfl, rfl⟩
      rcases List.mem_append.1 hv with hv | hv
      · obtain ⟨slots, -, hprefix, hkinds, hpos, new, hselects, hdeclension⟩ := ih hrest hv
        refine ⟨p.1 :: slots, List.cons_ne_nil _ _, List.cons_prefix_cons.2 ⟨rfl, hprefix⟩,
          List.forall_mem_cons.2 ⟨hkind, hkinds⟩, hpos, _, .cons hrule hmakes hselects, ?_⟩
        rw [hdeclension, hlabel, List.append_assoc]
        rfl
      · rw [List.mem_singleton.1 hv]
        exact ⟨[p.1], List.cons_ne_nil _ _, List.cons_prefix_cons.2 ⟨rfl, List.nil_prefix⟩,
          List.forall_mem_singleton.2 hkind, rfl, _, .cons hrule hmakes (.nil _),
          congrArg (labels ++ [·]) hlabel.symm⟩

/-- A selection of all the slots has its form among those that they make. -/
theorem mem_expand_of_selects (hpairs : ∀ p ∈ pairs, CompiledSlot.ofSlot p.1 = .ok p.2)
    (hkinds : ∀ p ∈ pairs, p.1.kind ≠ .particle) (hne : pairs ≠ []) {labels new : List String}
    {last : List Char} (h : Selects (pairs.map Prod.fst) form new last) :
    ⟨last, labels ++ new, pos⟩ ∈ expand pos (pairs.map Prod.snd) form labels := by
  induction pairs generalizing form labels new with
  | nil => exact absurd rfl hne
  | cons p rest ih =>
    obtain ⟨hp, hrest⟩ := List.forall_mem_cons.1 hpairs
    obtain ⟨hkind, hkinds⟩ := List.forall_mem_cons.1 hkinds
    cases h with
    | @cons _ rule _ _ next _ new hrule hmakes hselects =>
      obtain ⟨r, hr, happly, hlabel⟩ := (CompiledSlot.makes_iff hp).1 ⟨rule, hrule, hmakes, rfl⟩
      rw [List.map_cons, expand, CompiledSlot.kind_of_ofSlot hp, if_neg hkind]
      refine List.mem_flatMap.2 ⟨r, hr, List.mem_append.2 ?_⟩
      rw [happly, hlabel]
      by_cases hrest' : rest = []
      · subst hrest'
        cases hselects
        exact .inr (List.mem_singleton_self _)
      · have hlabels : labels ++ rule.declension :: new = labels ++ [rule.declension] ++ new :=
          List.append_cons ..
        rw [hlabels]
        exact .inl (ih hrest hkinds hrest' hselects)

end Variant

/-! ## Declined forms -/

namespace Decliner

variable {map : AffixMap} {speller : Speller} {d : Decliner}

/-- The forms of a word are those of selections. -/
theorem exists_isSelection_of_mem_variants (hd : ofAffixMap map speller = .ok d) {w : RootWord}
    {v : Variant} (hv : v ∈ d.variants w) :
    v.partOfSpeech = w.partOfSpeech ∧
      ∃ slots, map.IsSelection w v.phonetic v.declension slots := by
  obtain ⟨pairs, hsources, hslots, hpairs⟩ := exists_pairs_of_ofAffixMap hd w.partOfSpeech
  obtain ⟨chosen, hchosen, hv⟩ := List.mem_flatMap.1 hv
  obtain ⟨-, hsub⟩ := mem_allCombinations_iff.1 hchosen
  rw [← hslots] at hsub
  obtain ⟨some, hsome, rfl⟩ := List.sublist_map_iff.1 hsub
  obtain ⟨slots, hne, hprefix, hkinds, hpos, labels, hselects, hlabels⟩ :=
    Variant.exists_selects_of_mem_expand (fun p hp ↦ hpairs p (hsome.subset hp)) hv
  rw [hlabels, List.nil_append]
  refine ⟨hpos, slots, hne, ?_, hselects⟩
  have hslots : slots.Sublist (map.inOrder w.partOfSpeech) :=
    hsources ▸ hprefix.sublist.trans (hsome.map Prod.fst)
  rw [AffixMap.selectable,
    ← List.filter_eq_self.2 fun slot hslot ↦ decide_eq_true (hkinds slot hslot)]
  exact hslots.filter _

/-- Every selection makes a form of the word. -/
theorem mem_variants_of_isSelection (hd : ofAffixMap map speller = .ok d) {w : RootWord}
    {form : List Char} {labels : List String} {slots : List AffixSlot}
    (h : map.IsSelection w form labels slots) :
    ⟨form, labels, w.partOfSpeech⟩ ∈ d.variants w := by
  obtain ⟨pairs, hsources, hslots, hpairs⟩ := exists_pairs_of_ofAffixMap hd w.partOfSpeech
  have hsub : slots.Sublist (pairs.map Prod.fst) := by
    rw [hsources]
    exact h.sublist.trans List.filter_sublist
  obtain ⟨chosen, hchosen, rfl⟩ := List.sublist_map_iff.1 hsub
  have hne : chosen ≠ [] := fun hnil ↦ h.ne_nil (hnil ▸ rfl)
  have hkinds : ∀ p ∈ chosen, p.1.kind ≠ .particle := fun p hp ↦
    of_decide_eq_true (List.mem_filter.1 (h.sublist.subset (List.mem_map_of_mem hp))).2
  refine List.mem_flatMap.2 ⟨chosen.map Prod.snd, mem_allCombinations_iff.2 ⟨?_, ?_⟩, ?_⟩
  · simpa using hne
  · exact hslots ▸ hchosen.map Prod.snd
  · exact Variant.mem_expand_of_selects (fun p hp ↦ hpairs p (hchosen.subset hp)) hkinds hne
      h.selects

theorem exists_entriesOf_eq_map {w : RootWord} {v : Variant}
    (hpos : v.partOfSpeech = w.partOfSpeech) :
    ∃ entry : String → LexiconEntry, d.entriesOf w v = w.glosses.map entry ∧
      ∀ gloss, (entry gloss).IsForm d.speller w gloss v.phonetic v.declension :=
  ⟨_, rfl, fun _ ↦ ⟨rfl, d.speller.trimString_spell _, rfl, congrArg trimString hpos, rfl, rfl, rfl,
    rfl⟩⟩

/-- **The declined forms of a word are those of its selections**, but that the labels of a selection
may have been cut short or gone on with. -/
theorem decline_selections (hd : ofAffixMap map speller = .ok d) {word : WordInput} {derived : Bool}
    {w : RootWord} (hw : word.toRoot speller derived = .ok w) :
    ∃ entries, d.decline word derived = .ok entries ∧
      (∀ e ∈ entries, ∃ form labels slots, map.IsSelection w form labels slots ∧
        ∃ gloss ∈ w.glosses, e.IsForm speller w gloss form labels) ∧
      ∀ form labels slots, map.IsSelection w form labels slots → ∀ gloss ∈ w.glosses,
        ∃ e ∈ entries, ∃ labels', e.IsForm speller w gloss form labels' ∧
          ∀ pair ∈ labels'.zip labels, pair.1 = pair.2 := by
  have hspeller := speller_of_ofAffixMap hd
  refine ⟨d.declineRoot w, by rw [decline, hspeller, hw]; rfl, fun e he ↦ ?_,
    fun form labels slots hselection gloss hgloss ↦ ?_⟩
  · obtain ⟨v, hv, he⟩ := List.mem_flatMap.1 he
    obtain ⟨hpos, slots, hselection⟩ :=
      exists_isSelection_of_mem_variants hd (Variant.mem_of_mem_dedup hv)
    obtain ⟨entry, hentries, hentry⟩ := exists_entriesOf_eq_map (d := d) hpos
    rw [hentries] at he
    obtain ⟨gloss, hgloss, rfl⟩ := List.mem_map.1 he
    exact ⟨v.phonetic, v.declension, slots, hselection, gloss, hgloss, hspeller ▸ hentry gloss⟩
  · obtain ⟨kept, hkept, habsorbs⟩ :=
      Variant.exists_absorbs_of_mem (mem_variants_of_isSelection hd hselection)
    obtain ⟨entry, hentries, hentry⟩ := exists_entriesOf_eq_map (d := d) habsorbs.partOfSpeech
    refine ⟨entry gloss, List.mem_flatMap.2 ⟨kept, hkept, ?_⟩, kept.declension, ?_,
      Variant.labelsAgree_iff.1 habsorbs.labels⟩
    · rw [hentries]
      exact List.mem_map_of_mem hgloss
    · have hform := hentry gloss
      rwa [hspeller, habsorbs.phonetic] at hform

/-- The article of nouns. -/
def article : DeclensionRule := ⟨"Definite", .plain "na" "na"⟩

/-- Their plural, which depends on the last sound. -/
def plural : DeclensionRule := ⟨"Plural", .conditional "a$" "a$" "i" "i" "ai" "ai"⟩

/-- Nouns take an article in front and a plural behind.  Their particles are words of their own. -/
def articlesAndPlurals : AffixMap :=
  ⟨[("n", [⟨.back, [plural]⟩, ⟨.particle, [⟨"Past", .empty⟩]⟩, ⟨.front, [article]⟩])],
    List.pairwise_singleton _ _⟩

/-- A noun with a stress mark. -/
def stressedHouse : RootWord :=
  ⟨"ˈka", "n", ["house"], false, WordInput.sourceOf ⟨[]⟩ "ˈka" "house" "n"⟩

/-- The article takes the stress mark away, and the plural then sees `naka`. -/
theorem isSelection_nakai : articlesAndPlurals.IsSelection stressedHouse "nakai".toList
    ["Definite", "Plural"] [⟨.front, [article]⟩, ⟨.back, [plural]⟩] where
  ne_nil := List.cons_ne_nil _ _
  sublist := by
    simp [AffixMap.selectable, AffixMap.inOrder, articlesAndPlurals, stressedHouse, Dictionary.get?,
      List.mergeSort, List.MergeSort.Internal.splitInTwo, AffixKind.name]
  selects := by
    obtain ⟨p, hp, hoccurs⟩ : ∃ p, compilePattern "a$" = .ok p ∧ p.occursIn "naka".toList = true :=
      ⟨_, rfl, by decide⟩
    have harticle : article.affix.Makes .front "ˈka".toList "naka".toList := .add "na" "na" _
    have hplural : plural.affix.Makes .back "naka".toList "nakai".toList := by
      have hchoose := AffixRule.Makes.choose (by decide : AffixKind.back ≠ .replacement) hp
        "a$" "i" "i" "ai" "ai" "naka".toList
      rwa [if_pos hoccurs] at hchoose
    have hback := @Selects.cons ⟨.back, [plural]⟩ plural _ _ _ _ _ (List.mem_singleton_self _)
      hplural (.nil _)
    exact @Selects.cons ⟨.front, [article]⟩ article _ _ _ _ _ (List.mem_singleton_self _) harticle
      hback

/-- The house with both is among its declined forms. -/
theorem decline_selections_house : ∃ d entries,
    ofAffixMap articlesAndPlurals ⟨[]⟩ = .ok d ∧
    (WordInput.fields "ˈka" "n" "house").toRoot ⟨[]⟩ false = .ok stressedHouse ∧
    d.decline (.fields "ˈka" "n" "house") false = .ok entries ∧
    ∃ e ∈ entries, e.phonetic = "nakai" ∧
      ∀ pair ∈ e.declensions.zip ["Definite", "Plural"], pair.1 = pair.2 := by
  have hcompiled : (ofAffixMap articlesAndPlurals ⟨[]⟩).isOk = true := by decide
  obtain ⟨d, hd⟩ := exists_eq_ok_of_isOk hcompiled
  have hword : (WordInput.fields "ˈka" "n" "house").toRoot ⟨[]⟩ false = .ok stressedHouse := rfl
  obtain ⟨entries, hentries, -, hcomplete⟩ := decline_selections hd hword
  obtain ⟨e, he, labels, hform, hlabels⟩ :=
    hcomplete _ _ _ isSelection_nakai "house" (List.mem_singleton_self _)
  exact ⟨d, entries, hd, hword, hentries, e, he, hform.phonetic, hform.declensions ▸ hlabels⟩

end Decliner

end Glossopoeia
