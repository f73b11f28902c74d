import Glossopoeia.Affix.Compile
import Glossopoeia.Proofs.Affix.Pieces

/-!
# The notation of affixes

The documents write an affix in one of six ways, three of them with a condition
(`Orthography.Notates`).  The readers of a cell are tried in order and each could cut a text at
several places, so what has to be shown is that no other reading comes first:

* a conditional affix needs two hyphens (`two_le_count_of_readConditional?`), so a text with one is
  no conditional affix whatever its stem is;
* of two hyphens the second cannot belong to the first stem, which leaves one place to cut
  (`isLast_secondFront`, `isLast_secondBack`);
* a particle has a blank before its first hyphen, and a prefix has none there
  (`frontBranches_eq_none`).

`Orthography.compileCell_of_notates` has the result for all six.
-/

set_option autoImplicit false

namespace Glossopoeia

open Text Phonology

/-- A stem: a text without blanks and hyphens. -/
structure IsStem (cs : List Char) : Prop where
  /-- There is something in it. -/
  ne_nil : cs ≠ []
  /-- No blank is. -/
  solid : Solid cs
  /-- No hyphen is. -/
  notMem : '-' ∉ cs

/-- One blank or more. -/
structure IsGap (cs : List Char) : Prop where
  /-- There is one. -/
  ne_nil : cs ≠ []
  /-- There is nothing else. -/
  allBlank : allBlank cs

/-- Is the text `IF mark THEN` and a gap? -/
def IsOpening (mark text : List Char) : Prop :=
  ∃ g₁ g₂ g₃, (IsGap g₁ ∧ IsGap g₂ ∧ IsGap g₃) ∧
    text = "IF".toList ++ g₁ ++ mark ++ g₂ ++ "THEN".toList ++ g₃

/-- Is the text `ELSE` between gaps? -/
def IsElse (text : List Char) : Prop :=
  ∃ g₁ g₂, (IsGap g₁ ∧ IsGap g₂) ∧ text = g₁ ++ "ELSE".toList ++ g₂

/-- The pattern that looks for a class letter at the start of a word. -/
def Phonology.SoundClass.atStart (s : SoundClass) (letter : Char) : String :=
  String.ofList ('^' :: s.substitute [letter])

/-- The pattern that looks for a class letter at the end of a word. -/
def Phonology.SoundClass.atEnd (s : SoundClass) (letter : Char) : String :=
  String.ofList (s.substitute [letter] ++ ['$'])

/-- **The written affixes**, and what they say.  A space may be written as any gap. -/
inductive Orthography.Notates (o : Orthography) : List Char → AffixKind → AffixRule → Prop
  /-- `a-` -/
  | front {a : List Char} (ha : IsStem a) :
      Notates o (a ++ ['-']) .front
        (.plain (String.ofList a) (o.speller.spell (String.ofList a)))
  /-- `-a` -/
  | back {a : List Char} (ha : IsStem a) :
      Notates o ('-' :: a) .back
        (.plain (String.ofList a) (o.speller.spell (String.ofList a)))
  /-- `a -` -/
  | particle {a w : List Char} (ha : IsStem a) (hw : IsGap w) :
      Notates o (a ++ w ++ ['-']) .particle
        (.plain (String.ofList (a ++ w)) (o.speller.spell (String.ofList a)))
  /-- `IF #V THEN a- ELSE b-`, and the same with `C` -/
  | frontIf {letter : Char} {head middle a b : List Char} (hletter : letter = 'V' ∨ letter = 'C')
      (hhead : IsOpening ['#', letter] head) (ha : IsStem a) (hmiddle : IsElse middle)
      (hb : IsStem b) :
      Notates o (head ++ a ++ ['-'] ++ middle ++ b ++ ['-']) .front
        (.conditional (o.phonetic.atStart letter) (o.spelled.atStart letter)
          (String.ofList a) (o.speller.spell (String.ofList a))
          (String.ofList b) (o.speller.spell (String.ofList b)))
  /-- `IF V# THEN -a ELSE -b`, and the same with `C` -/
  | backIf {letter : Char} {head middle a b : List Char} (hletter : letter = 'V' ∨ letter = 'C')
      (hhead : IsOpening [letter, '#'] head) (ha : IsStem a) (hmiddle : IsElse middle)
      (hb : IsStem b) :
      Notates o (head ++ ['-'] ++ a ++ middle ++ ['-'] ++ b) .back
        (.conditional (o.phonetic.atEnd letter) (o.spelled.atEnd letter)
          (String.ofList a) (o.speller.spell (String.ofList a))
          (String.ofList b) (o.speller.spell (String.ofList b)))
  /-- `IF #V THEN a - ELSE b -`, and the same with `C` -/
  | particleIf {letter : Char} {head middle a v b w : List Char}
      (hletter : letter = 'V' ∨ letter = 'C') (hhead : IsOpening ['#', letter] head)
      (ha : IsStem a) (hv : IsGap v) (hmiddle : IsElse middle) (hb : IsStem b) (hw : IsGap w) :
      Notates o (head ++ a ++ v ++ ['-'] ++ middle ++ b ++ w ++ ['-']) .particle
        (.conditional (o.phonetic.atStart letter) (o.spelled.atStart letter)
          (String.ofList (a ++ v)) (o.speller.spell (String.ofList a))
          (String.ofList (b ++ w)) (o.speller.spell (String.ofList b)))

/-! ## Stems and gaps -/

variable {a b v w pre post head middle : List Char}

theorem IsStem.isRun (ha : IsStem a) : CellForm.isRun a :=
  CellForm.isRun_iff.2 ⟨ha.ne_nil, ha.solid⟩

theorem IsStem.isRunAndBlanks (ha : IsStem a) (hw : allBlank w) :
    CellForm.isRunAndBlanks (a ++ w) :=
  CellForm.isRunAndBlanks_iff.2 ⟨a, w, rfl, ha.isRun, hw⟩

theorem IsStem.trimLeft_append (ha : IsStem a) (rest : List Char) :
    trimLeft (a ++ rest) = a ++ rest := by
  obtain ⟨c, a, rfl⟩ := List.exists_cons_of_ne_nil ha.ne_nil
  exact trimLeft_cons (ha.solid c (List.mem_cons_self ..)) _

theorem IsGap.exists_cons (hw : IsGap w) : ∃ c rest, w = c :: rest ∧ isBlank c = true := by
  obtain ⟨c, rest, rfl⟩ := List.exists_cons_of_ne_nil hw.ne_nil
  exact ⟨c, rest, rfl, allBlank_iff.1 hw.allBlank c (List.mem_cons_self ..)⟩

theorem count_eq_zero_of_allBlank (h : allBlank w) : w.count '-' = 0 :=
  List.count_eq_zero.2 (notMem_of_allBlank h (by decide))

theorem IsStem.count_eq_zero (ha : IsStem a) : a.count '-' = 0 := List.count_eq_zero.2 ha.notMem

theorem IsElse.count_eq_zero (h : IsElse middle) : middle.count '-' = 0 := by
  obtain ⟨g₁, g₂, ⟨h₁, h₂⟩, rfl⟩ := h
  rw [List.count_append, List.count_append, count_eq_zero_of_allBlank h₁.allBlank,
    count_eq_zero_of_allBlank h₂.allBlank]
  rfl

/-! ## Hyphens -/

namespace CellForm

variable {p : List Char → Bool} {cs rest : List Char}

theorem two_le_count_of_secondFront (h : secondFront p rest = some b) : 2 ≤ rest.count '-' := by
  obtain ⟨g₁, g₂, g₃, -, rfl, -⟩ := secondFront_eq_some_iff.1 h
  simp only [List.count_cons_self, List.count_append]
  omega

theorem one_le_count_of_secondBack {inner : Bool} (h : secondBack inner rest = some b) :
    1 ≤ rest.count '-' := by
  obtain ⟨g₁, g₂, g₃, -, rfl, -⟩ := secondBack_eq_some_iff.1 h
  simp only [List.count_cons_self, List.count_append]
  omega

/-- There are two hyphens in a conditional affix. -/
theorem two_le_count_of_readConditional? {form : CellForm}
    (hform : readConditional? cs = some form) : 2 ≤ cs.count '-' := by
  obtain ⟨⟨boundary, rest⟩, hcondition, h⟩ := Option.bind_eq_some_iff.1 hform
  obtain ⟨head, -, rfl, -⟩ := readCondition_eq_some_iff.1 hcondition
  suffices hrest : 2 ≤ rest.count '-' by
    rw [List.count_append]
    omega
  dsimp only at h
  split at h
  · rcases Option.or_eq_some_iff.1 h with h | ⟨-, h⟩
    · obtain ⟨_, hbranches, -⟩ := Option.map_eq_some_iff.1 h
      obtain ⟨rest, rfl, -, hsecond, -⟩ := frontBranches_eq_some_iff.1 hbranches
      have hcount := two_le_count_of_secondFront hsecond
      rw [List.count_append]
      omega
    · obtain ⟨_, hbranches, -⟩ := Option.map_eq_some_iff.1 h
      obtain ⟨run, gap, rest, rfl, -, -, -, -, hsecond⟩ := particleBranches_eq_some_iff.1 hbranches
      have hcount := two_le_count_of_secondFront hsecond
      rw [List.count_append]
      omega
  · obtain ⟨_, hbranches, -⟩ := Option.map_eq_some_iff.1 h
    obtain ⟨rest, rfl, -, hsecond, -⟩ := backBranches_eq_some_iff.1 hbranches
    have hcount := one_le_count_of_secondBack hsecond
    rw [List.count_cons_self, List.count_append]
    omega

/-- The first stem cannot end behind its hyphen if just one more follows. -/
theorem isLast_secondFront (h : cs.count '-' ≤ 1) : IsLast (secondFront p) ('-' :: cs) := by
  rintro (_ | ⟨c, more⟩) rest heq hmore -
  · exact absurd rfl hmore
  · rw [List.cons_append] at heq
    obtain ⟨rfl, rfl⟩ := List.cons.inj heq
    rw [Option.eq_none_iff_forall_ne_some]
    intro b hb
    have hcount := two_le_count_of_secondFront hb
    rw [List.count_append] at h
    omega

/-- The first stem cannot end behind a blank. -/
theorem isLast_of_isGap {α : Type} {k : List Char → Option α} (hw : IsGap w) (rest : List Char) :
    IsLast k (w ++ rest) := by
  obtain ⟨c, w, rfl, hc⟩ := hw.exists_cons
  exact (isLast_cons_iff []).2 (.inl hc)

/-- In front of a blank there is no prefix. -/
theorem frontBranches_eq_none (ha : IsStem a) (hw : IsGap w) (rest : List Char) :
    frontBranches p (a ++ w ++ rest) = none := by
  obtain ⟨c, w, rfl, hc⟩ := hw.exists_cons
  refine frontBranches_eq_none_iff.2 fun run behind heq hrun ↦ ?_
  have hsolid := solid_of_isRun hrun
  rw [Option.eq_none_iff_forall_ne_some]
  intro b hb
  obtain ⟨_, _, _, -, rfl, -⟩ := secondFront_eq_some_iff.1 hb
  rw [List.append_assoc] at heq
  rcases List.append_eq_append_iff.1 heq with ⟨more, rfl, hmore⟩ | ⟨more, rfl, hmore⟩
  · cases more with
    | nil => exact absurd (List.cons.inj hmore).1 (by rintro rfl; exact absurd hc (by decide))
    | cons d more =>
      obtain ⟨rfl, -⟩ := List.cons.inj hmore
      have hd := hsolid c (by simp)
      rw [hc] at hd
      cases hd
  · cases more with
    | nil => exact absurd (List.cons.inj hmore).1 (by rintro rfl; exact absurd hc (by decide))
    | cons d more =>
      obtain ⟨rfl, -⟩ := List.cons.inj hmore
      exact ha.notMem (by simp)

/-! ## Reading -/

theorem closing_append_cons (hpost : allBlank post) :
    closing p (cs ++ '-' :: post) = if p cs then some cs else none := by
  rw [closing, beforeHyphen_eq_some_iff.2 ⟨post, hpost, rfl⟩]
  rfl

theorem read?_of_readConditional? {form : CellForm} (h : readConditional? cs = some form) :
    read? cs = some form := by
  rw [read?, h, Option.some_or]

theorem read?_of_count_le_one (h : cs.count '-' ≤ 1) :
    read? cs = (readParticle? cs).or (readAttached? cs) := by
  have hnone : readConditional? cs = none := by
    rw [Option.eq_none_iff_forall_ne_some]
    intro form hform
    have hcount := two_le_count_of_readConditional? hform
    omega
  rw [read?, hnone, Option.none_or]

/-- `a-` -/
theorem read?_front (ha : IsStem a) (hpre : allBlank pre) (hpost : allBlank post) :
    read? (pre ++ (a ++ '-' :: post)) = some (.plain .front a) := by
  have hcount : (pre ++ (a ++ '-' :: post)).count '-' ≤ 1 := by
    simp [count_eq_zero_of_allBlank hpre, ha.count_eq_zero, count_eq_zero_of_allBlank hpost]
  have hparticle : (isRunAndBlanks a && !isRun a) = false := by simp [ha.isRun]
  have htrim : trimLeft (pre ++ (a ++ '-' :: post)) = a ++ '-' :: post := by
    rw [trimLeft_append hpre, ha.trimLeft_append]
  rw [read?_of_count_le_one hcount, readParticle?, readAttached?, htrim, closing_append_cons hpost,
    closing_append_cons hpost, hparticle, if_pos ha.isRun]
  rfl

/-- `-a` -/
theorem read?_back (ha : IsStem a) (hpre : allBlank pre) (hpost : allBlank post) :
    read? (pre ++ '-' :: (a ++ post)) = some (.plain .back a) := by
  have hcount : (pre ++ '-' :: (a ++ post)).count '-' ≤ 1 := by
    simp [count_eq_zero_of_allBlank hpre, ha.count_eq_zero, count_eq_zero_of_allBlank hpost]
  have htrim : trimLeft (pre ++ '-' :: (a ++ post)) = '-' :: (a ++ post) := by
    rw [trimLeft_append hpre, trimLeft_cons (by decide)]
  have hhyphen : '-' ∉ a ++ post := by
    rw [List.mem_append, not_or]
    exact ⟨ha.notMem, notMem_of_allBlank hpost (by decide)⟩
  have hclosing (p : List Char → Bool) : closing p ('-' :: (a ++ post)) = none := by
    rw [Option.eq_none_iff_forall_ne_some]
    intro stem hstem
    obtain ⟨⟨gap, hgap, heq⟩, -⟩ := closing_eq_some_iff.1 hstem
    -- The one hyphen stands at the start, and what is behind it is not blank.
    rw [← List.nil_append ('-' :: (a ++ post)),
      List.append_cons_inj_of_notMem List.not_mem_nil hhyphen] at heq
    obtain ⟨-, -, rfl⟩ := heq
    obtain ⟨c, a, rfl⟩ := List.exists_cons_of_ne_nil ha.ne_nil
    have hsolid := ha.solid c (List.mem_cons_self ..)
    rw [allBlank_iff.1 hgap c (by simp)] at hsolid
    cases hsolid
  have hopening : opening false ('-' :: (a ++ post)) = some a :=
    opening_false_eq_some_iff.2 ⟨post, hpost, rfl, ha.isRun⟩
  rw [read?_of_count_le_one hcount, readParticle?, readAttached?, htrim, hclosing, hclosing,
    hopening]
  rfl

/-- `a -` -/
theorem read?_particle (ha : IsStem a) (hw : IsGap w) (hpre : allBlank pre)
    (hpost : allBlank post) :
    read? (pre ++ (a ++ w ++ '-' :: post)) = some (.plain .particle (a ++ w)) := by
  have hcount : (pre ++ (a ++ w ++ '-' :: post)).count '-' ≤ 1 := by
    simp [count_eq_zero_of_allBlank hpre, ha.count_eq_zero, count_eq_zero_of_allBlank hw.allBlank,
      count_eq_zero_of_allBlank hpost]
  have hparticle : (isRunAndBlanks (a ++ w) && !isRun (a ++ w)) = true := by
    obtain ⟨c, w, rfl, hc⟩ := hw.exists_cons
    have hrun : ¬isRun (a ++ c :: w) := fun h ↦ by
      have hsolid := solid_of_isRun h c (by simp)
      rw [hc] at hsolid
      cases hsolid
    simp [ha.isRunAndBlanks hw.allBlank, hrun]
  have htrim : trimLeft (pre ++ (a ++ w ++ '-' :: post)) = a ++ w ++ '-' :: post := by
    rw [trimLeft_append hpre, List.append_assoc, ha.trimLeft_append]
  rw [read?_of_count_le_one hcount, readParticle?, htrim, closing_append_cons hpost,
    if_pos hparticle]
  rfl

variable {boundary : Boundary}

theorem readConditional?_append (hcondition : IsCondition boundary head)
    (hrest : trimLeft rest = rest) :
    readConditional? (head ++ rest)
      = if boundary.isInitial then
          ((frontBranches isRunAndBlanks rest).map fun (a, b) ↦
            .conditional .front boundary a b).or
          ((particleBranches rest).map fun (a, b) ↦ .conditional .particle boundary a b)
        else (backBranches true rest).map fun (a, b) ↦ .conditional .back boundary a b := by
  rw [readConditional?, readCondition_eq_some_iff.2 ⟨head, hcondition, rfl, hrest⟩]
  rfl

/-- `a- ELSE b-` behind a condition on the start of the word. -/
theorem read?_frontIf (hcondition : IsCondition boundary head) (hinitial : boundary.isInitial)
    (ha : IsStem a) (hmiddle : IsElse middle) (hb : IsStem b) (hpost : allBlank post) :
    read? (head ++ (a ++ '-' :: (middle ++ (b ++ '-' :: post))))
      = some (.conditional .front boundary a b) := by
  have hcount : (middle ++ (b ++ '-' :: post)).count '-' ≤ 1 := by
    simp [hmiddle.count_eq_zero, hb.count_eq_zero, count_eq_zero_of_allBlank hpost]
  have hsecond : secondFront isRunAndBlanks ('-' :: (middle ++ (b ++ '-' :: post))) = some b := by
    obtain ⟨g₁, g₂, ⟨h₁, h₂⟩, rfl⟩ := hmiddle
    refine secondFront_eq_some_iff.2 ⟨g₁, g₂, post, ⟨h₁.allBlank, h₂.allBlank, hpost⟩, rfl,
      hb.trimLeft_append _, ?_⟩
    exact isRunAndBlanks_of_isRun hb.isRun
  have hbranches : frontBranches isRunAndBlanks (a ++ '-' :: (middle ++ (b ++ '-' :: post)))
      = some (a, b) :=
    frontBranches_eq_some_iff.2 ⟨_, rfl, ha.isRun, hsecond, isLast_secondFront hcount⟩
  refine read?_of_readConditional? ?_
  rw [readConditional?_append hcondition (ha.trimLeft_append _), if_pos hinitial, hbranches]
  rfl

/-- `-a ELSE -b` behind a condition on the end of the word. -/
theorem read?_backIf (hcondition : IsCondition boundary head)
    (hinitial : boundary.isInitial = false) (ha : IsStem a) (hmiddle : IsElse middle)
    (hb : IsStem b) (hpost : allBlank post) :
    read? (head ++ '-' :: (a ++ (middle ++ '-' :: (b ++ post))))
      = some (.conditional .back boundary a b) := by
  have hlast : IsLast (secondBack true) (middle ++ '-' :: (b ++ post)) := by
    obtain ⟨g₁, g₂, ⟨h₁, -⟩, rfl⟩ := hmiddle
    rw [List.append_assoc, List.append_assoc]
    exact isLast_of_isGap h₁ _
  have hsecond : secondBack true (middle ++ '-' :: (b ++ post)) = some b := by
    obtain ⟨g₁, g₂, ⟨h₁, h₂⟩, rfl⟩ := hmiddle
    refine secondBack_eq_some_iff.2 ⟨g₁, g₂, post, ⟨h₁.allBlank, h₂.allBlank, hpost⟩, rfl,
      hb.solid.trimRight_eq, ?_⟩
    rw [if_pos rfl, hb.solid.trimLeft_eq]
    exact hb.isRun
  have hbranches : backBranches true ('-' :: (a ++ (middle ++ '-' :: (b ++ post)))) = some (a, b) :=
    backBranches_eq_some_iff.2 ⟨_, rfl, ha.isRun, hsecond, hlast⟩
  refine read?_of_readConditional? ?_
  rw [readConditional?_append hcondition (trimLeft_cons (by decide) _), hinitial,
    if_neg Bool.false_ne_true, hbranches]
  rfl

/-- `a - ELSE b -` behind a condition on the start of the word. -/
theorem read?_particleIf (hcondition : IsCondition boundary head) (hinitial : boundary.isInitial)
    (ha : IsStem a) (hv : IsGap v) (hmiddle : IsElse middle) (hb : IsStem b) (hw : IsGap w)
    (hpost : allBlank post) :
    read? (head ++ (a ++ v ++ '-' :: (middle ++ (b ++ w ++ '-' :: post))))
      = some (.conditional .particle boundary (a ++ v) (b ++ w)) := by
  have hsecond : secondFront isRunAndBlanks ('-' :: (middle ++ (b ++ w ++ '-' :: post)))
      = some (b ++ w) := by
    obtain ⟨g₁, g₂, ⟨h₁, h₂⟩, rfl⟩ := hmiddle
    refine secondFront_eq_some_iff.2 ⟨g₁, g₂, post, ⟨h₁.allBlank, h₂.allBlank, hpost⟩, rfl, ?_,
      hb.isRunAndBlanks hw.allBlank⟩
    rw [List.append_assoc]
    exact hb.trimLeft_append _
  have hbranches : particleBranches (a ++ v ++ '-' :: (middle ++ (b ++ w ++ '-' :: post)))
      = some (a ++ v, b ++ w) :=
    particleBranches_eq_some_iff.2 ⟨a, v, _, rfl, rfl, ha.isRun, hv.ne_nil, hv.allBlank, hsecond⟩
  have htrim : trimLeft (a ++ v ++ '-' :: (middle ++ (b ++ w ++ '-' :: post)))
      = a ++ v ++ '-' :: (middle ++ (b ++ w ++ '-' :: post)) := by
    rw [List.append_assoc, ha.trimLeft_append]
  refine read?_of_readConditional? ?_
  rw [readConditional?_append hcondition htrim, if_pos hinitial, frontBranches_eq_none ha hv,
    hbranches]
  rfl

end CellForm

/-! ## Compiling -/

theorem IsOpening.isCondition {boundary : Boundary} (h : IsOpening boundary.mark head)
    (hpre : allBlank pre) : CellForm.IsCondition boundary (pre ++ head) := by
  obtain ⟨g₁, g₂, g₃, ⟨h₁, h₂, h₃⟩, rfl⟩ := h
  refine ⟨pre, g₁, g₂, g₃, ⟨hpre, h₁.allBlank, h₂.allBlank, h₃.allBlank⟩, ?_⟩
  simp only [List.append_assoc]

namespace Orthography

variable {o : Orthography} {text : List Char} {kind : AffixKind} {rule : AffixRule}

/-- The two questions about the start of a word, by their class letters. -/
theorem exists_boundary_atStart {letter : Char} (h : letter = 'V' ∨ letter = 'C') :
    ∃ boundary : Boundary, boundary.mark = ['#', letter] ∧ boundary.isInitial ∧
      ∀ s, boundaryPattern s boundary = s.atStart letter := by
  rcases h with rfl | rfl
  · exact ⟨.initialVowel, rfl, rfl, fun s ↦ by
      rw [SoundClass.atStart, SoundClass.substitute, List.flatMap_singleton]
      rfl⟩
  · exact ⟨.initialConsonant, rfl, rfl, fun s ↦ by
      rw [SoundClass.atStart, SoundClass.substitute, List.flatMap_singleton]
      rfl⟩

/-- The two questions about the end of a word, by their class letters. -/
theorem exists_boundary_atEnd {letter : Char} (h : letter = 'V' ∨ letter = 'C') :
    ∃ boundary : Boundary, boundary.mark = [letter, '#'] ∧ boundary.isInitial = false ∧
      ∀ s, boundaryPattern s boundary = s.atEnd letter := by
  rcases h with rfl | rfl
  · exact ⟨.finalVowel, rfl, rfl, fun s ↦ by
      rw [SoundClass.atEnd, SoundClass.substitute, List.flatMap_singleton]
      rfl⟩
  · exact ⟨.finalConsonant, rfl, rfl, fun s ↦ by
      rw [SoundClass.atEnd, SoundClass.substitute, List.flatMap_singleton]
      rfl⟩

theorem spellAdd_append (ha : IsStem a) (hw : allBlank w) :
    o.spellAdd (a ++ w) = o.speller.spell (String.ofList a) := by
  rw [spellAdd, ha.solid.trim_append hw, Speller.spell, onString, String.toList_ofList]

theorem spellAdd_stem (ha : IsStem a) : o.spellAdd a = o.speller.spell (String.ofList a) := by
  rw [← spellAdd_append ha (w := []) rfl, List.append_nil]

theorem compileCell_of_read? {form : CellForm} (h : CellForm.read? text = some form) :
    o.compileCell text = .ok (some (o.ruleOf form).1, (o.ruleOf form).2) := by
  rw [compileCell, h]

/-- **Every notation is read back**: between any blanks, what a text notates is what it is compiled
to. -/
theorem compileCell_of_notates (h : o.Notates text kind rule) (hpre : allBlank pre)
    (hpost : allBlank post) :
    o.compileCell (pre ++ text ++ post) = .ok (some kind, rule) := by
  cases h with
  | @front a ha =>
    have hread := CellForm.read?_front ha hpre hpost
    have htext : pre ++ (a ++ ['-']) ++ post = pre ++ (a ++ '-' :: post) := by simp
    rw [htext, compileCell_of_read? hread, ruleOf, spellAdd_stem ha]
  | @back a ha =>
    have hread := CellForm.read?_back ha hpre hpost
    have htext : pre ++ '-' :: a ++ post = pre ++ '-' :: (a ++ post) := by simp
    rw [htext, compileCell_of_read? hread, ruleOf, spellAdd_stem ha]
  | @particle a w ha hw =>
    have hread := CellForm.read?_particle ha hw hpre hpost
    have htext : pre ++ (a ++ w ++ ['-']) ++ post = pre ++ (a ++ w ++ '-' :: post) := by simp
    rw [htext, compileCell_of_read? hread, ruleOf, spellAdd_append ha hw.allBlank]
  | @frontIf letter head middle a b hletter hhead ha hmiddle hb =>
    obtain ⟨boundary, hmark, hinitial, hpattern⟩ := exists_boundary_atStart hletter
    have hcondition := (hmark ▸ hhead).isCondition hpre
    have hread := CellForm.read?_frontIf hcondition hinitial ha hmiddle hb hpost
    have htext : pre ++ (head ++ a ++ ['-'] ++ middle ++ b ++ ['-']) ++ post
        = pre ++ head ++ (a ++ '-' :: (middle ++ (b ++ '-' :: post))) := by simp
    rw [htext, compileCell_of_read? hread, ruleOf, hpattern, hpattern, spellAdd_stem ha,
      spellAdd_stem hb]
  | @backIf letter head middle a b hletter hhead ha hmiddle hb =>
    obtain ⟨boundary, hmark, hinitial, hpattern⟩ := exists_boundary_atEnd hletter
    have hcondition := (hmark ▸ hhead).isCondition hpre
    have hread := CellForm.read?_backIf hcondition hinitial ha hmiddle hb hpost
    have htext : pre ++ (head ++ ['-'] ++ a ++ middle ++ ['-'] ++ b) ++ post
        = pre ++ head ++ '-' :: (a ++ (middle ++ '-' :: (b ++ post))) := by simp
    rw [htext, compileCell_of_read? hread, ruleOf, hpattern, hpattern, spellAdd_stem ha,
      spellAdd_stem hb]
  | @particleIf letter head middle a v b w hletter hhead ha hv hmiddle hb hw =>
    obtain ⟨boundary, hmark, hinitial, hpattern⟩ := exists_boundary_atStart hletter
    have hcondition := (hmark ▸ hhead).isCondition hpre
    have hread := CellForm.read?_particleIf hcondition hinitial ha hv hmiddle hb hw hpost
    have htext : pre ++ (head ++ a ++ v ++ ['-'] ++ middle ++ b ++ w ++ ['-']) ++ post
        = pre ++ head ++ (a ++ v ++ '-' :: (middle ++ (b ++ w ++ '-' :: post))) := by simp
    rw [htext, compileCell_of_read? hread, ruleOf, hpattern, hpattern,
      spellAdd_append ha hv.allBlank, spellAdd_append hb hw.allBlank]

/-- A language with one vowel that is written as it sounds. -/
def ofOneVowel : Orthography := ⟨.ofSymbols ["a"], .ofSpelled ["a"], ⟨[]⟩⟩

/-- The article `la` or `l`, in a cell with blanks around it. -/
theorem compileCell_article :
    ofOneVowel.Notates "IF #V THEN l - ELSE la -".toList .particle
        (.conditional "^[a]" "^[a]" "l " "l" "la " "la") ∧
      allBlank " ".toList ∧ allBlank "\t".toList ∧
      ofOneVowel.compileCell (" ".toList ++ "IF #V THEN l - ELSE la -".toList ++ "\t".toList)
        = .ok (some .particle, .conditional "^[a]" "^[a]" "l " "l" "la " "la") := by
  have hgap : IsGap [' '] := ⟨by decide, by decide⟩
  have hhead : IsOpening ['#', 'V'] "IF #V THEN ".toList :=
    ⟨[' '], [' '], [' '], ⟨hgap, hgap, hgap⟩, rfl⟩
  have hmiddle : IsElse " ELSE ".toList := ⟨[' '], [' '], ⟨hgap, hgap⟩, rfl⟩
  have hl : IsStem ['l'] := ⟨by decide, by decide, by decide⟩
  have hla : IsStem ['l', 'a'] := ⟨by decide, by decide, by decide⟩
  have hrule : AffixRule.conditional (ofOneVowel.phonetic.atStart 'V')
      (ofOneVowel.spelled.atStart 'V') (String.ofList (['l'] ++ [' ']))
      (ofOneVowel.speller.spell (String.ofList ['l'])) (String.ofList (['l', 'a'] ++ [' ']))
      (ofOneVowel.speller.spell (String.ofList ['l', 'a']))
        = .conditional "^[a]" "^[a]" "l " "l" "la " "la" := by decide +kernel
  have hnotates : ofOneVowel.Notates "IF #V THEN l - ELSE la -".toList .particle
      (.conditional "^[a]" "^[a]" "l " "l" "la " "la") :=
    hrule ▸ .particleIf (.inl rfl) hhead hl hgap hmiddle hla hgap
  exact ⟨hnotates, by decide, by decide, compileCell_of_notates hnotates (by decide) (by decide)⟩

end Orthography

end Glossopoeia
