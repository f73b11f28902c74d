import Glossopoeia.Affix.Compile
import Glossopoeia.Affix.Transform
import Glossopoeia.Proofs.Affix.Pieces
import Glossopoeia.Proofs.Outcome
import Glossopoeia.Proofs.Pattern.Matcher

/-!
# Affixes without blanks

An affix leaves a text solid if what it adds is solid, and if what it puts in place of a match are
pieces of that match (`AffixRule.KeepsSolid`, `Transform.solid_apply`).  Of the affixes that can be
written,

* the lengthening of a vowel is of the second kind;
* a derivational affix is written between the blanks around it, so its additions are solid
  (`keepsSolid_compileDerivational`);
* a particle is written with a blank before its hyphen, and solid but for that
  (`CellForm.read?_eq_some`);
* the additions of a prefix or a suffix in a table may contain blanks, which is why the statements
  on tables ask for those that do not.
-/

set_option autoImplicit false

namespace Glossopoeia

open Outcome Text

/-! ## What an affix does to a solid text -/

namespace AffixRule

/-- The texts that a rule adds to phonetic forms. -/
def additions : AffixRule → List String
  | substitute .. => []
  | conditional _ _ thenAdd _ elseAdd _ => [thenAdd, elseAdd]
  | plain add _ => [add]
  | empty => []

/-- The texts that a rule puts in place of what it matches in phonetic forms. -/
def replacements : AffixRule → List String
  | substitute _ _ replacement _ => [replacement]
  | _ => []

/-- The rule adds solid texts, and replaces matches by pieces of them. -/
structure KeepsSolid (r : AffixRule) : Prop where
  /-- What it adds is solid. -/
  additions : ∀ add ∈ r.additions, Solid add.toList
  /-- It replaces matches by their groups. -/
  replacements : ∀ text ∈ r.replacements,
    (Template.ofBraced (Template.braced text.toList)).GroupsOnly

end AffixRule

theorem solid_attach (position : WordEnd) {add stem : List Char} (hadd : Solid add)
    (hstem : Solid stem) : Solid (attach position add stem) := by
  cases position with
  | front => exact hadd.append hstem
  | back => exact hstem.append hadd

theorem Transform.solid_apply {rule : AffixRule} (hrule : rule.KeepsSolid) {t : Transform}
    (ht : Transform.ofRule rule = .ok t) (position : WordEnd) {form stem : List Char}
    (hform : Solid form) (hstem : Solid stem) : Solid (t.apply position form stem) := by
  cases rule with
  | substitute p _ text _ =>
    obtain ⟨r, hr, rfl⟩ := map_eq_ok.1 ht
    obtain ⟨pattern, _, hr⟩ := bind_eq_ok.1 hr
    rw [← pure_eq_ok.1 hr]
    exact pattern.solid_replaceAll (hrule.replacements text (List.mem_singleton_self text)) hstem
  | conditional p _ a _ b _ =>
    obtain ⟨pattern, _, rfl⟩ := map_eq_ok.1 ht
    have hadd : Solid (if pattern.occursIn form then a.toList else b.toList) := by
      split
      · exact hrule.additions a (List.mem_cons_self ..)
      · exact hrule.additions b (List.mem_cons_of_mem _ (List.mem_singleton_self b))
    exact solid_attach position hadd hstem
  | plain a _ =>
    cases ht
    exact solid_attach position (hrule.additions a (List.mem_singleton_self a)) hstem
  | empty =>
    cases ht
    exact hform

/-! ## Written affixes -/

namespace CellForm

variable {cs : List Char}

theorem solid_trim_of_isRunAndBlanks (h : isRunAndBlanks cs) : Solid (trim cs) := by
  obtain ⟨run, gap, rfl, hrun, hgap⟩ := isRunAndBlanks_iff.1 h
  rw [(solid_of_isRun hrun).trim_append hgap]
  exact solid_of_isRun hrun

/-- The additions of a written affix. -/
def adds : CellForm → List (List Char)
  | plain _ add => [add]
  | conditional _ _ a b => [a, b]

/-- The kind of a written affix. -/
def kind : CellForm → AffixKind
  | plain k _ => k
  | conditional k .. => k

theorem readAttached?_eq_some {form : CellForm} (h : readAttached? cs = some form) :
    (form.kind = .front ∨ form.kind = .back) ∧ ∀ add ∈ form.adds, Solid add := by
  rcases Option.or_eq_some_iff.1 h with h | ⟨_, h⟩
  · obtain ⟨stem, hstem, rfl⟩ := Option.map_eq_some_iff.1 h
    obtain ⟨_, hrun⟩ := closing_eq_some_iff.1 hstem
    exact ⟨.inl rfl, List.forall_mem_singleton.2 (solid_of_isRun hrun)⟩
  · obtain ⟨stem, hstem, rfl⟩ := Option.map_eq_some_iff.1 h
    obtain ⟨_, _, _, hrun⟩ := opening_false_eq_some_iff.1 hstem
    exact ⟨.inr rfl, List.forall_mem_singleton.2 (solid_of_isRun hrun)⟩

/-- The two particles of a condition. -/
theorem solid_particleBranches {a b : List Char} (h : particleBranches cs = some (a, b)) :
    Solid (trim a) ∧ Solid (trim b) := by
  obtain ⟨run, gap, rest, -, rfl, hrun, -, hgap, hb⟩ := particleBranches_eq_some_iff.1 h
  obtain ⟨_, _, _, _, _, _, hb⟩ := secondFront_eq_some_iff.1 hb
  rw [(solid_of_isRun hrun).trim_append hgap]
  exact ⟨solid_of_isRun hrun, solid_trim_of_isRunAndBlanks hb⟩

/-- What a cell can hold: no replacement, and particles that are solid once they are trimmed. -/
theorem read?_eq_some {form : CellForm} (h : read? cs = some form) :
    form.kind ≠ .replacement ∧ (form.kind = .particle → ∀ add ∈ form.adds, Solid (trim add)) := by
  rcases Option.or_eq_some_iff.1 h with h | ⟨_, h⟩
  · obtain ⟨⟨boundary, rest⟩, _, h⟩ := Option.bind_eq_some_iff.1 h
    dsimp only at h
    split at h
    · rcases Option.or_eq_some_iff.1 h with h | ⟨_, h⟩
      · obtain ⟨_, _, rfl⟩ := Option.map_eq_some_iff.1 h
        exact ⟨nofun, nofun⟩
      · obtain ⟨⟨a, b⟩, hbranches, rfl⟩ := Option.map_eq_some_iff.1 h
        obtain ⟨ha, hb⟩ := solid_particleBranches hbranches
        exact ⟨nofun, fun _ ↦ List.forall_mem_cons.2 ⟨ha, List.forall_mem_singleton.2 hb⟩⟩
    · obtain ⟨_, _, rfl⟩ := Option.map_eq_some_iff.1 h
      exact ⟨nofun, nofun⟩
  · rcases Option.or_eq_some_iff.1 h with h | ⟨_, h⟩
    · obtain ⟨stem, hstem, rfl⟩ := Option.map_eq_some_iff.1 h
      obtain ⟨_, hrun⟩ := closing_eq_some_iff.1 hstem
      rw [Bool.and_eq_true] at hrun
      exact ⟨nofun, fun _ ↦ List.forall_mem_singleton.2 (solid_trim_of_isRunAndBlanks hrun.1)⟩
    · rcases (readAttached?_eq_some h).1 with hkind | hkind <;> rw [hkind] <;> exact ⟨nofun, nofun⟩

/-- The additions of a derivational affix are solid. -/
theorem solid_of_readDerivational? {form : CellForm} (h : readDerivational? cs = some form) :
    ∀ add ∈ form.adds, Solid add := by
  rcases Option.or_eq_some_iff.1 h with h | ⟨_, h⟩
  · obtain ⟨⟨boundary, rest⟩, _, h⟩ := Option.bind_eq_some_iff.1 h
    dsimp only at h
    split at h
    · obtain ⟨⟨a, b⟩, hbranches, rfl⟩ := Option.map_eq_some_iff.1 h
      obtain ⟨_, _, ha, hb, _⟩ := frontBranches_eq_some_iff.1 hbranches
      obtain ⟨_, _, _, _, _, _, hb⟩ := secondFront_eq_some_iff.1 hb
      exact List.forall_mem_cons.2
        ⟨solid_of_isRun ha, List.forall_mem_singleton.2 (solid_of_isRun hb)⟩
    · obtain ⟨⟨a, b⟩, hbranches, rfl⟩ := Option.map_eq_some_iff.1 h
      obtain ⟨_, _, ha, hb, _⟩ := backBranches_eq_some_iff.1 hbranches
      obtain ⟨_, _, _, _, _, _, hb⟩ := secondBack_eq_some_iff.1 hb
      exact List.forall_mem_cons.2
        ⟨solid_of_isRun ha, List.forall_mem_singleton.2 (solid_of_isRun hb)⟩
  · exact (readAttached?_eq_some h).2

end CellForm

/-! ## Compiled affixes -/

namespace Orthography

variable {o : Orthography}

/-- A compiled affix adds what is written. -/
theorem ruleOf_eq (form : CellForm) :
    (o.ruleOf form).1 = form.kind ∧ (o.ruleOf form).2.replacements = [] ∧
      (o.ruleOf form).2.additions = form.adds.map String.ofList := by
  cases form <;> exact ⟨rfl, rfl, rfl⟩

/-- What a cell compiles to: a written affix, a lengthening, or the empty rule. -/
theorem of_compileCell {content : List Char} {kind : Option AffixKind} {affix : AffixRule}
    (h : o.compileCell content = .ok (kind, affix)) :
    (∃ form, CellForm.read? content = some form ∧ kind = some (o.ruleOf form).1 ∧
      affix = (o.ruleOf form).2) ∨
    (kind = some .replacement ∧ affix = o.lengthening) ∨ (kind = none ∧ affix = .empty) := by
  rw [compileCell] at h
  cases hform : CellForm.read? content with
  | some form =>
    rw [hform] at h
    obtain ⟨hkind, haffix⟩ := Prod.mk.inj (Except.ok.inj h)
    exact .inl ⟨form, rfl, hkind.symm, haffix.symm⟩
  | none =>
    rw [hform] at h
    dsimp only at h
    split at h
    · cases h
      exact .inr (.inl ⟨rfl, rfl⟩)
    · split at h
      · cases h
        exact .inr (.inr ⟨rfl, rfl⟩)
      · cases h

/-- What a line of the derivational affixes compiles to. -/
theorem of_compileDerivational {line tag : String} {a : DerivationalAffix}
    (h : o.compileDerivational line = .ok (tag, a)) :
    ∃ left right form, cut '=' line.toList = some (left, right) ∧
      CellForm.readDerivational? (trim right) = some form ∧ tag = String.ofList (trim left) ∧
      a = ⟨if (o.ruleOf form).1 = .front then .front else .back, (o.ruleOf form).2⟩ := by
  rw [compileDerivational] at h
  split at h
  · cases h
  · next left right hcut =>
    cases hform : CellForm.readDerivational? (trim right) with
    | none =>
      rw [hform] at h
      cases h
    | some form =>
      rw [hform] at h
      obtain ⟨htag, ha⟩ := Prod.mk.inj (Except.ok.inj h)
      exact ⟨left, right, form, hcut, hform, htag.symm, ha.symm⟩

theorem ofBraced_lengthening : Template.ofBraced (Template.braced "$1$1$2$3".toList)
    = [.group 1, .group 1, .group 2, .group 3] := by decide

theorem groupsOnly_lengthening :
    (Template.ofBraced (Template.braced "$1$1$2$3".toList)).GroupsOnly := by
  rw [ofBraced_lengthening, Template.GroupsOnly]
  simp

/-- **What a cell compiles to keeps texts solid**, but for a particle, and for a prefix or a suffix
with additions that are not solid. -/
theorem keepsSolid_compileCell {content : List Char} {kind : Option AffixKind} {affix : AffixRule}
    (h : o.compileCell content = .ok (kind, affix)) (hkind : kind ≠ some .particle)
    (hadds : kind = some .front ∨ kind = some .back →
      ∀ add ∈ affix.additions, Solid add.toList) : affix.KeepsSolid := by
  rcases of_compileCell h with ⟨form, hform, rfl, rfl⟩ | ⟨rfl, rfl⟩ | ⟨rfl, rfl⟩
  · obtain ⟨hkinds, hreplacements, _⟩ := ruleOf_eq (o := o) form
    obtain ⟨hreplacement, _⟩ := CellForm.read?_eq_some hform
    refine ⟨hadds ?_, fun text htext ↦ ?_⟩
    · rw [hkinds] at hkind ⊢
      cases hk : form.kind with
      | front => exact .inl rfl
      | back => exact .inr rfl
      | particle => exact absurd (congrArg some hk) hkind
      | replacement => exact absurd hk hreplacement
    · rw [hreplacements] at htext
      exact absurd htext List.not_mem_nil
  · refine ⟨fun _ h ↦ absurd h List.not_mem_nil, fun text htext ↦ ?_⟩
    rw [List.mem_singleton.1 htext]
    exact groupsOnly_lengthening
  · exact ⟨fun _ h ↦ absurd h List.not_mem_nil, fun _ h ↦ absurd h List.not_mem_nil⟩

/-- A derivational affix keeps texts solid. -/
theorem keepsSolid_compileDerivational {line tag : String} {a : DerivationalAffix}
    (h : o.compileDerivational line = .ok (tag, a)) : a.rule.KeepsSolid := by
  obtain ⟨_, _, form, _, hform, _, rfl⟩ := of_compileDerivational h
  obtain ⟨_, hreplacements, hadditions⟩ := ruleOf_eq (o := o) form
  refine ⟨fun add hadd ↦ ?_, fun text htext ↦ ?_⟩
  · rw [hadditions] at hadd
    obtain ⟨written, hwritten, rfl⟩ := List.mem_map.1 hadd
    rw [String.toList_ofList]
    exact CellForm.solid_of_readDerivational? hform written hwritten
  · rw [hreplacements] at htext
    exact absurd htext List.not_mem_nil

end Orthography

end Glossopoeia
