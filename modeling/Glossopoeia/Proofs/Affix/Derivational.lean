import Glossopoeia.Proofs.Affix.Notation
import Glossopoeia.Proofs.Affix.Solid

/-!
# Derivational affixes as table cells

A derivational affix is read by the same pieces as a table cell, but with fewer blanks and no
particles.  Whatever it reads a cell reads too, and reads alike
(`CellForm.read?_of_readDerivational?`):

* Behind the place where the derivational reader ends its first stem, every place where a cell could
  go on is one where the derivational reader could have as well, so the longest run is the same one.
  For prefixes that is because the text has no blank before its last hyphen, for suffixes because it
  has none behind its second.
* A text that is read as an unconditional affix has no blanks within it.  In such a text the blanks
  that only cells allow cannot stand, so a cell does not find a condition where the derivational
  reader found none.
-/

set_option autoImplicit false

namespace Glossopoeia

open Text

namespace CellForm

variable {cs rest a b : List Char}

/-! ## Branches -/

/-- Of the places to end the first stem none is left out by the stricter reader `k`. -/
theorem IsLast.of_forall {α : Type} {k k' : List Char → Option α} (hlast : IsLast k rest)
    (hback : ∀ more rest' x, rest = more ++ rest' → more ≠ [] → k' rest' = some x →
      k rest' = some x) : IsLast k' rest := by
  intro more rest' heq hmore hsolid
  have hnone := hlast more rest' heq hmore hsolid
  rw [Option.eq_none_iff_forall_ne_some] at hnone ⊢
  exact fun x hx ↦ hnone x (hback more rest' x heq hmore hx)

/-- A text with blanks after it has none if its last character is not one. -/
theorem isRun_of_isRunAndBlanks (h : isRunAndBlanks a)
    (hlast : ∀ c, a.getLast? = some c → isBlank c = false) : isRun a := by
  obtain ⟨run, gap, rfl, hrun, hgap⟩ := isRunAndBlanks_iff.1 h
  cases gap using List.reverseRecOn with
  | nil => rwa [List.append_nil]
  | append_singleton gap c =>
    have hc := hlast c (by rw [← List.append_assoc, List.getLast?_concat])
    rw [allBlank_iff.1 hgap c (by simp)] at hc
    cases hc

theorem beforeHyphen_of_secondFront {p : List Char → Bool} (h : secondFront p rest = some b) :
    ∃ front, beforeHyphen rest = some (front ++ b) ∧ p b := by
  obtain ⟨g₁, g₂, g₃, ⟨_, _, h₃⟩, rfl, _, hb⟩ := secondFront_eq_some_iff.1 h
  exact ⟨'-' :: (g₁ ++ "ELSE".toList ++ g₂), beforeHyphen_eq_some_iff.2 ⟨g₃, h₃, by simp⟩, hb⟩

theorem secondFront_isRun_iff : secondFront isRun rest = some b ↔
    secondFront isRunAndBlanks rest = some b ∧ isRun b := by
  simp only [secondFront_eq_some_iff]
  constructor
  · rintro ⟨g₁, g₂, g₃, hgaps, hrest, htrim, hb⟩
    exact ⟨⟨g₁, g₂, g₃, hgaps, hrest, htrim, isRunAndBlanks_of_isRun hb⟩, hb⟩
  · rintro ⟨⟨g₁, g₂, g₃, hgaps, hrest, htrim, -⟩, hb⟩
    exact ⟨g₁, g₂, g₃, hgaps, hrest, htrim, hb⟩

theorem beforeHyphen_append {stem : List Char} (h : beforeHyphen rest = some stem)
    (more : List Char) : beforeHyphen (more ++ rest) = some (more ++ stem) := by
  obtain ⟨gap, hgap, rfl⟩ := beforeHyphen_eq_some_iff.1 h
  exact beforeHyphen_eq_some_iff.2 ⟨gap, hgap, (List.append_assoc ..).symm⟩

/-- **Two prefixes** are read from a cell as from a derivational affix. -/
theorem frontBranches_of_isRun (h : frontBranches isRun cs = some (a, b)) :
    frontBranches isRunAndBlanks cs = some (a, b) := by
  obtain ⟨rest, rfl, ha, hsecond, hlast⟩ := frontBranches_eq_some_iff.1 h
  refine frontBranches_eq_some_iff.2
    ⟨rest, rfl, ha, (secondFront_isRun_iff.1 hsecond).1, hlast.of_forall ?_⟩
  intro more rest' b' heq _ hsecond'
  -- Both readings end at the last hyphen of the text, so the same character stands before it.
  obtain ⟨front, hbefore, hb⟩ := beforeHyphen_of_secondFront hsecond
  obtain ⟨front', hbefore', hb'⟩ := beforeHyphen_of_secondFront hsecond'
  have hsame : front ++ b = more ++ (front' ++ b') := by
    rw [heq, beforeHyphen_append hbefore' more] at hbefore
    exact (Option.some.inj hbefore).symm
  refine secondFront_isRun_iff.2 ⟨hsecond', isRun_of_isRunAndBlanks hb' fun c hc ↦ ?_⟩
  obtain ⟨hne, hsolid⟩ := isRun_iff.1 hb
  have hc : (front ++ b).getLast? = some c := by
    rw [hsame, List.getLast?_append, List.getLast?_append, hc, Option.some_or, Option.some_or]
  rw [List.getLast?_append, List.getLast?_eq_some_getLast hne, Option.some_or] at hc
  exact hsolid c (Option.some.inj hc ▸ List.getLast_mem hne)

theorem secondBack_false_iff : secondBack false rest = some b ↔
    secondBack true rest = some b ∧ Solid b := by
  rw [secondBack_eq_some_iff, secondBack_eq_some_iff]
  constructor
  · rintro ⟨g₁, g₂, g₃, hgaps, hrest, htrim, hb⟩
    have hsolid : Solid b := solid_of_isRun hb
    refine ⟨⟨g₁, g₂, g₃, hgaps, hrest, htrim, ?_⟩, hsolid⟩
    rw [if_pos rfl, hsolid.trimLeft_eq]
    exact hb
  · rintro ⟨⟨g₁, g₂, g₃, hgaps, hrest, htrim, hb⟩, hsolid⟩
    rw [if_pos rfl, hsolid.trimLeft_eq] at hb
    exact ⟨g₁, g₂, g₃, hgaps, hrest, htrim, hb⟩

/-- **Two suffixes** are read from a cell as from a derivational affix. -/
theorem backBranches_of_false (h : backBranches false cs = some (a, b)) :
    backBranches true cs = some (a, b) := by
  obtain ⟨rest, rfl, ha, hsecond, hlast⟩ := backBranches_eq_some_iff.1 h
  obtain ⟨hsecond', hb⟩ := secondBack_false_iff.1 hsecond
  refine backBranches_eq_some_iff.2 ⟨rest, rfl, ha, hsecond', hlast.of_forall ?_⟩
  intro more rest' b' heq _ hread
  obtain ⟨g₁, g₂, g₃, ⟨h₁, h₂, h₃⟩, rfl, -⟩ := secondBack_eq_some_iff.1 hsecond
  obtain ⟨g₁', g₂', g₃', ⟨-, -, h₃'⟩, rfl, htrim, -⟩ := secondBack_eq_some_iff.1 hread
  refine secondBack_false_iff.2 ⟨hread, ?_⟩
  -- The hyphen of the second stem is the first one of this text.
  have hhyphen : '-' ∉ g₁ ++ "ELSE".toList ++ g₂ := by
    rw [List.mem_append, List.mem_append, not_or, not_or]
    exact ⟨⟨notMem_of_allBlank h₁ (by decide), by decide⟩, notMem_of_allBlank h₂ (by decide)⟩
  rw [← List.append_assoc] at heq
  have hsubset := trimRight_subset_of_suffix (suffix_of_append_cons_eq heq hhyphen)
  rw [trimRight_append h₃', trimRight_append h₃, htrim, hb.trimRight_eq] at hsubset
  exact hb.subset hsubset

/-- The condition of a derivational affix. -/
def readDerivationalConditional? (cs : List Char) : Option CellForm :=
  (readCondition cs).bind fun (boundary, rest) ↦
    if boundary.isInitial then
      (frontBranches isRun rest).map fun (a, b) ↦ conditional .front boundary a b
    else (backBranches false rest).map fun (a, b) ↦ conditional .back boundary a b

theorem readDerivational?_eq : readDerivational? cs
    = (readDerivationalConditional? cs).or (readAttached? cs) := rfl

theorem readConditional?_of_readDerivationalConditional? {form : CellForm}
    (h : readDerivationalConditional? cs = some form) : readConditional? cs = some form := by
  obtain ⟨⟨boundary, rest⟩, hcondition, hform⟩ := Option.bind_eq_some_iff.1 h
  refine Option.bind_eq_some_iff.2 ⟨(boundary, rest), hcondition, ?_⟩
  dsimp only at hform ⊢
  split at hform
  · next hinitial =>
    obtain ⟨_, hbranches, rfl⟩ := Option.map_eq_some_iff.1 hform
    rw [if_pos hinitial, frontBranches_of_isRun hbranches]
    rfl
  · next hinitial =>
    obtain ⟨_, hbranches, rfl⟩ := Option.map_eq_some_iff.1 hform
    rw [if_neg hinitial, backBranches_of_false hbranches]
    rfl

/-! ## Texts without inner blanks -/

theorem solid_trim_of_readAttached? {form : CellForm} (h : readAttached? cs = some form) :
    Solid (trim cs) := by
  have hhyphen : Solid ['-'] := by decide
  rw [trim]
  rcases Option.or_eq_some_iff.1 h with h | ⟨-, h⟩
  · obtain ⟨stem, hstem, -⟩ := Option.map_eq_some_iff.1 h
    obtain ⟨⟨gap, hgap, heq⟩, hrun⟩ := closing_eq_some_iff.1 hstem
    have hsolid : Solid (stem ++ ['-']) := (solid_of_isRun hrun).append hhyphen
    rw [heq, List.append_cons, trimRight_append hgap, hsolid.trimRight_eq]
    exact hsolid
  · obtain ⟨stem, hstem, -⟩ := Option.map_eq_some_iff.1 h
    obtain ⟨gap, hgap, heq, hrun⟩ := opening_false_eq_some_iff.1 hstem
    have hsolid : Solid ('-' :: stem) := hhyphen.append (solid_of_isRun hrun)
    rw [heq, ← List.cons_append, trimRight_append hgap, hsolid.trimRight_eq]
    exact hsolid

/-- A solid text has no blanks after it. -/
theorem isRun_of_solid (h : isRunAndBlanks a) (hsolid : Solid a) : isRun a :=
  isRun_of_isRunAndBlanks h fun c hc ↦ hsolid c (List.mem_of_getLast? hc)

theorem readParticle?_eq_none (h : Solid (trim cs)) : readParticle? cs = none := by
  rw [readParticle?, Option.map_eq_none_iff, Option.eq_none_iff_forall_ne_some]
  intro stem hstem
  obtain ⟨⟨gap, -, heq⟩, hparticle⟩ := closing_eq_some_iff.1 hstem
  rw [Bool.and_eq_true, Bool.not_eq_true'] at hparticle
  rw [trim, heq, trimRight_append_cons _ _ (by decide)] at h
  have hrun := isRun_of_solid hparticle.1 (h.subset (List.subset_append_left ..))
  rw [hparticle.2] at hrun
  cases hrun

theorem frontBranches_ne_none (h : Solid (trimRight cs))
    (hbranches : frontBranches isRunAndBlanks cs = some (a, b)) :
    frontBranches isRun cs ≠ none := by
  obtain ⟨rest, rfl, ha, hsecond, -⟩ := frontBranches_eq_some_iff.1 hbranches
  obtain ⟨front, hbefore, hb⟩ := beforeHyphen_of_secondFront hsecond
  obtain ⟨gap, -, hrest⟩ := beforeHyphen_eq_some_iff.1 hbefore
  have hsolid : Solid b := by
    rw [hrest, ← List.append_assoc, trimRight_append_cons _ _ (by decide)] at h
    exact h.subset fun c hc ↦ by simp [hc]
  have hread := secondFront_isRun_iff.2 ⟨hsecond, isRun_of_solid hb hsolid⟩
  intro hnone
  rw [frontBranches_eq_none_iff.1 hnone a rest rfl ha] at hread
  cases hread

/-- A particle has a blank before its hyphen. -/
theorem particleBranches_eq_none (h : Solid (trimRight cs)) : particleBranches cs = none := by
  rw [Option.eq_none_iff_forall_ne_some]
  rintro ⟨first, b⟩ hbranches
  obtain ⟨run, gap, rest, rfl, -, -, hne, hgap, hsecond⟩ :=
    particleBranches_eq_some_iff.1 hbranches
  obtain ⟨_, _, _, -, rfl, -⟩ := secondFront_eq_some_iff.1 hsecond
  rw [trimRight_append_cons _ _ (by decide)] at h
  obtain ⟨c, gap, rfl⟩ := List.exists_cons_of_ne_nil hne
  have hc := h c (by simp)
  rw [allBlank_iff.1 hgap c (List.mem_cons_self ..)] at hc
  cases hc

theorem backBranches_ne_none (h : Solid (trimRight cs))
    (hbranches : backBranches true cs = some (a, b)) : backBranches false cs ≠ none := by
  obtain ⟨rest, rfl, ha, hsecond, -⟩ := backBranches_eq_some_iff.1 hbranches
  obtain ⟨g₁, g₂, g₃, ⟨-, -, h₃⟩, hrest, htrim, -⟩ := secondBack_eq_some_iff.1 hsecond
  have hsolid : Solid b := by
    have hsuffix : b ++ g₃ <:+ '-' :: (a ++ rest) :=
      ⟨'-' :: a ++ (g₁ ++ "ELSE".toList ++ g₂ ++ ['-']), by rw [hrest]; simp⟩
    have hsubset := trimRight_subset_of_suffix hsuffix
    rw [trimRight_append h₃, htrim] at hsubset
    exact h.subset hsubset
  have hread := secondBack_false_iff.2 ⟨hsecond, hsolid⟩
  intro hnone
  rw [backBranches_cons_eq_none_iff.1 hnone a rest rfl ha] at hread
  cases hread

theorem suffix_trimLeft_of_readCondition {boundary : Boundary}
    (h : readCondition cs = some (boundary, rest)) : rest <:+ trimLeft cs := by
  obtain ⟨head, ⟨g₁, g₂, g₃, g₄, ⟨h₁, -⟩, rfl⟩, rfl, -⟩ := readCondition_eq_some_iff.1 h
  simp only [List.append_assoc]
  rw [trimLeft_append h₁]
  have hif (behind : List Char) : trimLeft ("IF".toList ++ behind) = "IF".toList ++ behind :=
    trimLeft_cons (by decide) _
  rw [hif]
  exact ⟨"IF".toList ++ g₂ ++ boundary.mark ++ g₃ ++ "THEN".toList ++ g₄, by
    simp only [List.append_assoc]⟩

/-- In a solid text a cell finds a condition only if it is one of a derivational affix. -/
theorem readConditional?_eq_none (h : Solid (trim cs))
    (hnone : readDerivationalConditional? cs = none) : readConditional? cs = none := by
  rw [Option.eq_none_iff_forall_ne_some]
  intro form hread
  obtain ⟨⟨boundary, rest⟩, hcondition, hform⟩ := Option.bind_eq_some_iff.1 hread
  have hrest : Solid (trimRight rest) :=
    h.subset (trimRight_subset_of_suffix (suffix_trimLeft_of_readCondition hcondition))
  rw [readDerivationalConditional?, hcondition, Option.bind_some] at hnone
  dsimp only at hform hnone
  split at hform
  · next hinitial =>
    rw [if_pos hinitial, Option.map_eq_none_iff] at hnone
    rw [particleBranches_eq_none hrest, Option.map_none, Option.or_none] at hform
    obtain ⟨_, hbranches, -⟩ := Option.map_eq_some_iff.1 hform
    exact frontBranches_ne_none hrest hbranches hnone
  · next hinitial =>
    rw [if_neg hinitial, Option.map_eq_none_iff] at hnone
    obtain ⟨_, hbranches, -⟩ := Option.map_eq_some_iff.1 hform
    exact backBranches_ne_none hrest hbranches hnone

/-- **What a derivational affix is read as, a cell is.** -/
theorem read?_of_readDerivational? {form : CellForm} (h : readDerivational? cs = some form) :
    read? cs = some form := by
  rw [read?]
  rcases Option.or_eq_some_iff.1 (readDerivational?_eq ▸ h) with h | ⟨hnone, h⟩
  · rw [readConditional?_of_readDerivationalConditional? h, Option.some_or]
  · have hsolid := solid_trim_of_readAttached? h
    rw [readConditional?_eq_none hsolid hnone, readParticle?_eq_none hsolid, Option.none_or,
      Option.none_or, h]

/-- A derivational affix is put to one end of the word. -/
theorem kind_of_readDerivational? {form : CellForm} (h : readDerivational? cs = some form) :
    form.kind = .front ∨ form.kind = .back := by
  rcases Option.or_eq_some_iff.1 h with h | ⟨-, h⟩
  · obtain ⟨⟨boundary, rest⟩, -, hform⟩ := Option.bind_eq_some_iff.1 h
    dsimp only at hform
    split at hform
    · obtain ⟨_, -, rfl⟩ := Option.map_eq_some_iff.1 hform
      exact .inl rfl
    · obtain ⟨_, -, rfl⟩ := Option.map_eq_some_iff.1 hform
      exact .inr rfl
  · exact (readAttached?_eq_some h).1

end CellForm

/-- The kind of the affixes that are put to one end. -/
def WordEnd.kind : WordEnd → AffixKind
  | front => .front
  | back => .back

namespace Orthography

variable {o : Orthography}

/-- **A derivational affix is the affix that a table cell of the same text holds.** -/
theorem compileCell_of_compileDerivational {line tag : String} {position : WordEnd}
    {rule : AffixRule} (h : o.compileDerivational line = .ok (tag, ⟨position, rule⟩)) :
    ∃ left right, line.toList = left ++ '=' :: right ∧ '=' ∉ left ∧
      tag = String.ofList (trim left) ∧
      o.compileCell (trim right) = .ok (some position.kind, rule) := by
  obtain ⟨left, right, form, hcut, hform, htag, ha⟩ := of_compileDerivational h
  obtain ⟨hline, hleft⟩ := cut_eq_some_iff.1 hcut
  obtain ⟨hposition, rfl⟩ := DerivationalAffix.mk.inj ha
  refine ⟨left, right, hline, hleft, htag, ?_⟩
  have hkind : (o.ruleOf form).1 = position.kind := by
    rw [hposition, (ruleOf_eq form).1]
    rcases CellForm.kind_of_readDerivational? hform with hkind | hkind <;> rw [hkind] <;> rfl
  rw [compileCell, CellForm.read?_of_readDerivational? hform, ← hkind]

/-- Two suffixes with no blanks around their `ELSE`, of which the first holds an `ELSE` of its
own. -/
theorem compileCell_agentive :
    ofOneVowel.compileDerivational "AGENT = IFV#THEN-aELSEELSE-i"
        = .ok ("AGENT", ⟨.back, .conditional "[a]$" "[a]$" "aELSE" "aELSE" "i" "i"⟩) ∧
      ∃ left right, "AGENT = IFV#THEN-aELSEELSE-i".toList = left ++ '=' :: right ∧ '=' ∉ left ∧
        "AGENT" = String.ofList (trim left) ∧
        ofOneVowel.compileCell (trim right)
          = .ok (some .back, .conditional "[a]$" "[a]$" "aELSE" "aELSE" "i" "i") := by
  have h : ofOneVowel.compileDerivational "AGENT = IFV#THEN-aELSEELSE-i"
      = .ok ("AGENT", ⟨.back, .conditional "[a]$" "[a]$" "aELSE" "aELSE" "i" "i"⟩) := by
    decide +kernel
  exact ⟨h, compileCell_of_compileDerivational h⟩

end Orthography

end Glossopoeia
