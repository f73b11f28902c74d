import Glossopoeia.Proofs.Declension.Absorption
import Glossopoeia.Proofs.Declension.Combinations
import Glossopoeia.Proofs.GrammarTable.Rules

/-!
# From the rules of slots to the forms of words

A form of a word is made by rules of slots, one after the other, so what every such rule keeps holds
of the form as soon as it holds of the word (`exists_variant_of_mem_declineRoot`).  The slots of a
decliner are those of the affix map that it was compiled from, in the order of their kinds
(`slotsOf_of_ofAffixMap`), and `exists_rule_of_mem_slotsOf` leads from a compiled rule back to the
rule as it was written and to the kind of its slot.
-/

set_option autoImplicit false

namespace Glossopoeia

open Outcome Text

/-! ## Compiled rules -/

namespace CompiledSlot

/-- Each compiled rule of a slot is compiled from a rule of it. -/
theorem exists_rule_of_ofSlot {slot : AffixSlot} {compiled : CompiledSlot}
    (h : ofSlot slot = .ok compiled) :
    compiled.kind = slot.kind ∧ ∀ r ∈ compiled.rules, ∃ rule ∈ slot.rules,
      rule.declension = r.declension ∧ Transform.ofRule rule.affix = .ok r.transform := by
  rw [ofSlot, bind_eq_ok] at h
  obtain ⟨rules, hrules, h⟩ := h
  rw [← pure_eq_ok.1 h]
  refine ⟨rfl, fun r hr ↦ ?_⟩
  obtain ⟨rule, hrule, hcompiled⟩ := exists_of_mem_mapM hrules r hr
  obtain ⟨t, ht, heq⟩ := bind_eq_ok.1 hcompiled
  rw [← pure_eq_ok.1 heq]
  exact ⟨rule, (List.mem_filter.1 hrule).1, rfl, ht⟩

end CompiledSlot

namespace Decliner

theorem compileEntries_cons_eq_ok {pos : String} {slots : List AffixSlot}
    {rest : List (String × List AffixSlot)} {compiled : List (String × List CompiledSlot)} :
    compileEntries ((pos, slots) :: rest) = .ok compiled
      ↔ ∃ first others, slots.mapM CompiledSlot.ofSlot = .ok first ∧
        compileEntries rest = .ok others ∧ (pos, sortSlots first) :: others = compiled := by
  simp only [compileEntries, bind_eq_ok, pure_eq_ok, exists_and_left]

theorem keys_of_compileEntries {entries : List (String × List AffixSlot)}
    {compiled : List (String × List CompiledSlot)} (h : compileEntries entries = .ok compiled) :
    compiled.map Prod.fst = entries.map Prod.fst := by
  induction entries generalizing compiled with
  | nil => cases h; rfl
  | cons entry rest ih =>
    obtain ⟨_, others, _, hothers, rfl⟩ := compileEntries_cons_eq_ok.1 h
    rw [List.map_cons, List.map_cons, ih hothers]

theorem lookup_of_compileEntries {entries : List (String × List AffixSlot)}
    {compiled : List (String × List CompiledSlot)} (h : compileEntries entries = .ok compiled)
    (pos : String) : ∃ slots, ((entries.lookup pos).getD []).mapM CompiledSlot.ofSlot = .ok slots ∧
      (compiled.lookup pos).getD [] = sortSlots slots := by
  induction entries generalizing compiled with
  | nil =>
    cases h
    exact ⟨[], rfl, List.mergeSort_nil.symm⟩
  | cons entry rest ih =>
    obtain ⟨key, sources⟩ := entry
    obtain ⟨first, others, hfirst, hothers, rfl⟩ := compileEntries_cons_eq_ok.1 h
    simp only [Dictionary.lookup_cons_eq_ite]
    split
    · exact ⟨first, hfirst, rfl⟩
    · exact ih hothers

/-- **The slots of a part of speech are compiled from those of the affix map**, and put in the order
of their kinds. -/
theorem slotsOf_of_ofAffixMap {map : AffixMap} {speller : Speller} {d : Decliner}
    (h : ofAffixMap map speller = .ok d) (pos : String) :
    ∃ slots, ((map.get? pos).getD []).mapM CompiledSlot.ofSlot = .ok slots ∧
      d.slotsOf pos = sortSlots slots := by
  rw [ofAffixMap, bind_eq_ok] at h
  obtain ⟨compiled, hcompiled, h⟩ := h
  have hascending : compiled.Pairwise fun a b ↦ a.1 < b.1 := by
    rw [← List.pairwise_map (f := Prod.fst), keys_of_compileEntries hcompiled, List.pairwise_map]
    exact map.ascending
  have hslots : d.slotsOf pos = (compiled.lookup pos).getD [] := by
    rw [← pure_eq_ok.1 h, slotsOf]
    dsimp only
    rw [Dictionary.get?, Dictionary.entries_ofList hascending]
  rw [hslots]
  exact lookup_of_compileEntries hcompiled pos

/-- **The rules of a decliner are the rules of the affix map that it was compiled from.** -/
theorem exists_rule_of_mem_slotsOf {map : AffixMap} {speller : Speller} {d : Decliner}
    (h : ofAffixMap map speller = .ok d) {pos : String} {slot : CompiledSlot}
    (hslot : slot ∈ d.slotsOf pos) {r : CompiledRule} (hr : r ∈ slot.rules) :
    ∃ slots ∈ map.values, ∃ source ∈ slots, source.kind = slot.kind ∧ ∃ rule ∈ source.rules,
      rule.declension = r.declension ∧ Transform.ofRule rule.affix = .ok r.transform := by
  obtain ⟨slots, hslots, hsorted⟩ := slotsOf_of_ofAffixMap h pos
  rw [hsorted, sortSlots, List.mem_mergeSort] at hslot
  obtain ⟨source, hsource, hcompiled⟩ := exists_of_mem_mapM hslots slot hslot
  obtain ⟨hkind, hrules⟩ := CompiledSlot.exists_rule_of_ofSlot hcompiled
  cases hget : map.get? pos with
  | none =>
    rw [hget] at hsource
    exact absurd hsource List.not_mem_nil
  | some sources =>
    rw [hget] at hsource
    exact ⟨sources, Dictionary.mem_values_of_get? hget, source, hsource, hkind.symm, hrules r hr⟩

theorem speller_of_ofAffixMap {map : AffixMap} {speller : Speller} {d : Decliner}
    (h : ofAffixMap map speller = .ok d) : d.speller = speller := by
  rw [ofAffixMap, bind_eq_ok] at h
  obtain ⟨entries, _, h⟩ := h
  rw [← pure_eq_ok.1 h]

end Decliner

/-! ## Forms -/

/-- The rule, put to a form at the end of its slot, keeps what `I` says of forms and of the labels
of the rules that made them. -/
def CompiledRule.Keeps (I : List Char → List String → Prop) (slot : CompiledSlot)
    (r : CompiledRule) : Prop :=
  ∀ form labels, I form labels →
    I (r.transform.apply slot.position form (Variant.unstressed form)) (labels ++ [r.declension])

namespace Variant

variable {I : List Char → List String → Prop}

theorem holds_expand {pos : String} {slots : List CompiledSlot}
    (hrules : ∀ slot ∈ slots, slot.kind ≠ .particle → ∀ r ∈ slot.rules, r.Keeps I slot)
    {form : List Char} {labels : List String} (h : I form labels) :
    ∀ v ∈ expand pos slots form labels, I v.phonetic v.declension := by
  induction slots generalizing form labels with
  | nil => exact fun _ hv ↦ absurd hv List.not_mem_nil
  | cons slot rest ih =>
    rw [List.forall_mem_cons] at hrules
    intro v hv
    rw [expand] at hv
    split at hv
    · exact absurd hv List.not_mem_nil
    · next hkind =>
      obtain ⟨r, hr, hv⟩ := List.mem_flatMap.1 hv
      have hnext := hrules.1 hkind r hr form labels h
      rcases List.mem_append.1 hv with hv | hv
      · exact ih hrules.2 hnext v hv
      · rw [List.mem_singleton.1 hv]
        exact hnext

end Variant

namespace Decliner

theorem decline_eq_ok {map : AffixMap} {speller : Speller} {d : Decliner}
    (hd : ofAffixMap map speller = .ok d) {word : WordInput} {derived : Bool} {w : RootWord}
    (hw : word.toRoot speller derived = .ok w) :
    d.decline word derived = .ok ((Variant.dedup (d.variants w)).flatMap (d.entriesOf w)) := by
  rw [decline, speller_of_ofAffixMap hd, hw]
  rfl

/-- Decliners that make the same forms of a word decline it alike. -/
theorem decline_congr {map map' : AffixMap} {speller : Speller} {d d' : Decliner}
    (hd : ofAffixMap map speller = .ok d) (hd' : ofAffixMap map' speller = .ok d')
    {word : WordInput} {derived : Bool} {w : RootWord}
    (hw : word.toRoot speller derived = .ok w) (hvariants : d.variants w = d'.variants w) :
    d.decline word derived = d'.decline word derived := by
  have hentries : d.entriesOf w = d'.entriesOf w := by
    funext v
    rw [entriesOf, entriesOf, speller_of_ofAffixMap hd, speller_of_ofAffixMap hd']
  rw [decline_eq_ok hd hw, decline_eq_ok hd' hw, hvariants, hentries]

/-- **What all rules keep holds of the forms of a word**, if it holds of the word itself. -/
theorem exists_variant_of_mem_declineRoot {d : Decliner} {w : RootWord}
    {I : List Char → List String → Prop}
    (hrules : ∀ slot ∈ d.slotsOf w.partOfSpeech, slot.kind ≠ .particle →
      ∀ r ∈ slot.rules, r.Keeps I slot)
    (hword : I w.phonetic.toList []) {f : LexiconEntry} (hf : f ∈ d.declineRoot w) :
    ∃ v, I v.phonetic v.declension ∧ f ∈ d.entriesOf w v := by
  obtain ⟨v, hv, hf⟩ := List.mem_flatMap.1 hf
  obtain ⟨slots, hslots, hv⟩ := List.mem_flatMap.1 (Variant.mem_of_mem_dedup hv)
  refine ⟨v, Variant.holds_expand (fun slot hslot ↦ ?_) hword v hv, hf⟩
  exact hrules slot ((mem_allCombinations_iff.1 hslots).2.subset hslot)

/-- The labels of a form are names of rules, so what holds of those holds of the labels. -/
theorem forall_label_of_mem_declineEntry {map : AffixMap} {speller : Speller} {d : Decliner}
    (hd : ofAffixMap map speller = .ok d) {Q : String → Prop}
    (hmap : map.Holds fun _ rule ↦ Q rule.declension) {e f : LexiconEntry}
    (hf : f ∈ d.declineEntry e) : ∀ label ∈ f.declensions, Q label := by
  have hrules : ∀ slot ∈ d.slotsOf e.partOfSpeech, slot.kind ≠ .particle → ∀ r ∈ slot.rules,
      r.Keeps (fun _ labels ↦ ∀ label ∈ labels, Q label) slot := by
    intro slot hslot _ r hr form labels hlabels label hlabel
    obtain ⟨slots, hslots, source, hsource, _, rule, hrule, hname, _⟩ :=
      exists_rule_of_mem_slotsOf hd hslot hr
    rcases List.mem_append.1 hlabel with hlabel | hlabel
    · exact hlabels label hlabel
    · rw [List.mem_singleton.1 hlabel, ← hname]
      exact hmap slots hslots source hsource rule hrule
  obtain ⟨v, hv, hf⟩ := exists_variant_of_mem_declineRoot hrules
    (fun _ h ↦ absurd h List.not_mem_nil) hf
  obtain ⟨gloss, _, rfl⟩ := List.mem_map.1 hf
  exact hv

end Decliner

namespace LexiconEntry

variable {e : LexiconEntry}

/-- An entry of other labels than that of a root is no root. -/
theorem isRoot_eq_false (h : ∀ label ∈ e.declensions, label ≠ rootLabel) : e.isRoot = false := by
  rw [isRoot, ← Bool.not_eq_true, List.contains_iff_mem]
  exact fun hroot ↦ h rootLabel hroot rfl

/-- An entry of proper labels is no root. -/
theorem isRoot_of_isProper (h : ∀ label ∈ e.declensions, Labels.IsProper label) :
    e.isRoot = false :=
  isRoot_eq_false fun label hlabel hroot ↦ Labels.not_isProper_rootLabel (hroot ▸ h label hlabel)

/-- Nor can its value be taken for that of a root. -/
theorem declensionKey_ne_rootLabel (h : ∀ label ∈ e.declensions, Labels.IsProper label) :
    e.declensionKey ≠ rootLabel := by
  have hkey : Labels.IsProper e.declensionKey :=
    List.foldlRecOn (motive := Labels.IsProper) e.declensions _ (by decide)
      fun _ hkey label hlabel ↦ Labels.isProper_append hkey (h label hlabel)
  intro heq
  rw [heq] at hkey
  exact Labels.not_isProper_rootLabel hkey

end LexiconEntry

end Glossopoeia
