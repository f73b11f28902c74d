import Glossopoeia.GrammarTable.Walk
import Glossopoeia.Proofs.Text.Cuts

/-!
# The line of a cell

A cell is a path, a tilde between blanks and a content on one line, and whatever is written so is a
cell (`GrammarLine.read_eq_cell_iff`).  In the content the rule stands alone or behind the first
equals sign (`GrammarWalk.ruleText_append`).

Hence the line of a cell is still one when another rule is written in place of its own
(`GrammarLine.read_trim_replaced`).
-/

set_option autoImplicit false

namespace Glossopoeia

open Text

/-! ## The line -/

namespace GrammarLine

variable {line front path content : List Char}

/-- What stands before the tilde: a path, and a blank or more behind it. -/
def IsCellFront (front : List Char) : Prop :=
  ∃ gap path gap', (allBlank gap ∧ allBlank gap' ∧ gap' ≠ []) ∧
    (path ≠ [] ∧ ∀ c ∈ path, isPathChar c = true) ∧ front = gap ++ path ++ gap'

/-- What stands behind the tilde: a blank and, but for blanks in front of it, a text on one line. -/
def IsCellContent (content : List Char) : Prop :=
  ∃ c rest, isBlank c = true ∧ '\n' ∉ trimLeft rest ∧ content = c :: rest

theorem IsCellFront.notMem (h : IsCellFront front) : '~' ∉ front := by
  obtain ⟨gap, path, gap', ⟨hgap, hgap', -⟩, ⟨-, hpath⟩, rfl⟩ := h
  simp only [List.mem_append, not_or]
  refine ⟨⟨notMem_of_allBlank hgap (by decide), fun hmem ↦ ?_⟩,
    notMem_of_allBlank hgap' (by decide)⟩
  exact absurd (hpath _ hmem) (by decide)

theorem isBlank_eq_false_of_isPathChar {c : Char} (h : isPathChar c = true) :
    isBlank c = false := by
  by_contra hblank
  rw [Bool.not_eq_false] at hblank
  simp only [isPathChar, isAsciiDigit, isBlank, Bool.or_eq_true, Bool.and_eq_true,
    decide_eq_true_eq, beq_iff_eq, Char.le_def, UInt32.le_iff_toNat_le, Char.ext_iff,
    ← UInt32.toNat_inj, Char.toNat] at h hblank
  have h0 : '0'.val.toNat = 48 := rfl
  have h9 : '9'.val.toNat = 57 := rfl
  have hA : 'A'.val.toNat = 65 := rfl
  have hZ : 'Z'.val.toNat = 90 := rfl
  have hdot : '.'.val.toNat = 46 := rfl
  omega

theorem isCell_append_cons (hfront : IsCellFront front) (hcontent : IsCellContent content) :
    isCell (front ++ '~' :: content) := by
  obtain ⟨gap, path, gap', ⟨hgap, hgap', hne'⟩, ⟨hne, hpath⟩, rfl⟩ := hfront
  obtain ⟨c, rest, hc, hrest, rfl⟩ := hcontent
  obtain ⟨p, path, rfl⟩ := List.exists_cons_of_ne_nil hne
  obtain ⟨b, gap', rfl⟩ := List.exists_cons_of_ne_nil hne'
  obtain ⟨hb, hmore⟩ := List.forall_mem_cons.1 (allBlank_iff.1 hgap')
  have hstart : trimLeft (gap ++ p :: path ++ b :: gap' ++ '~' :: c :: rest)
      = p :: path ++ b :: (gap' ++ '~' :: c :: rest) := by
    rw [List.append_assoc, List.append_assoc, trimLeft_append hgap]
    exact trimLeft_cons (isBlank_eq_false_of_isPathChar (hpath p (List.mem_cons_self ..))) _
  have hpathEnd : isPathChar b = false := by
    by_contra hpathChar
    rw [Bool.not_eq_false] at hpathChar
    rw [isBlank_eq_false_of_isPathChar hpathChar] at hb
    cases hb
  obtain ⟨htake, hdrop⟩ :=
    takeWhile_dropWhile_append_cons hpath hpathEnd (gap' ++ '~' :: c :: rest)
  have htilde : trimLeft (gap' ++ '~' :: c :: rest) = '~' :: c :: rest := by
    rw [trimLeft_append (allBlank_iff.2 hmore), trimLeft_cons (by decide)]
  rw [isCell, drop_length_takeWhile, hstart, htake, hdrop]
  simp [hb, htilde, hc, hrest]

theorem exists_of_isCell (h : isCell line) : ∃ front content,
    IsCellFront front ∧ IsCellContent content ∧ line = front ++ '~' :: content := by
  obtain ⟨gap, hgap, hline, -⟩ := trimLeft_eq_iff.1 (Eq.refl (trimLeft line))
  have hsplit := List.takeWhile_append_dropWhile (p := isPathChar) (l := trimLeft line)
  rw [isCell, drop_length_takeWhile] at h
  split at h
  · next b rest hrest =>
    rw [Bool.and_eq_true, Bool.and_eq_true] at h
    obtain ⟨⟨hne, hb⟩, h⟩ := h
    split at h
    · next c content htilde =>
      rw [Bool.and_eq_true] at h
      obtain ⟨gap', hgap', rfl, -⟩ := trimLeft_eq_iff.1 htilde
      have hblank : allBlank (b :: gap') :=
        allBlank_iff.2 (List.forall_mem_cons.2 ⟨hb, allBlank_iff.1 hgap'⟩)
      refine ⟨gap ++ (trimLeft line).takeWhile isPathChar ++ b :: gap', c :: content,
        ⟨_, _, _, ⟨hgap, hblank, List.cons_ne_nil _ _⟩, ⟨by simpa using hne, ?_⟩, rfl⟩,
        ⟨c, content, h.1, by simpa using h.2, rfl⟩, ?_⟩
      · exact fun _ ↦ List.mem_takeWhile_imp
      · rw [hrest] at hsplit
        rw [List.append_assoc, List.append_assoc]
        exact hline.trans (congrArg _ hsplit.symm)
    · cases h
  · cases h

/-- No beginning of a cell is that of another line. -/
theorem opensWith_eq_false {more : List Char} (h : isCell (line ++ more)) {word : String}
    (hword : ∀ rest, isCell (word.toList ++ rest) = false) : opensWith word line = false := by
  rw [opensWith, Option.isSome_eq_false_iff, Option.isNone_iff_eq_none,
    Option.eq_none_iff_forall_ne_some]
  rintro rest hstrip
  rw [stripStart_eq_some_iff.1 hstrip, List.append_assoc, hword] at h
  cases h

/-- A beginning of a cell is that cell, or it says nothing. -/
theorem read_of_isCell_append {more : List Char} (h : isCell (line ++ more)) :
    read line = if isCell line then
      match cut '~' line with
      | some (path, content) => .cell (trim path) content
      | none => .other
    else .other := by
  rw [read, opensWith_eq_false h fun _ ↦ rfl, opensWith_eq_false h fun _ ↦ rfl,
    opensWith_eq_false h fun _ ↦ rfl, opensWith_eq_false h fun _ ↦ rfl,
    opensWith_eq_false h fun _ ↦ rfl]
  rfl

theorem read_of_isCell (h : isCell line) :
    read line = match cut '~' line with
      | some (path, content) => .cell (trim path) content
      | none => .other := by
  rw [@read_of_isCell_append line [] (by rwa [List.append_nil]), if_pos h]

/-- **The cells** are the lines that are written as one. -/
theorem read_eq_cell_iff : read line = .cell path content ↔
    ∃ front, IsCellFront front ∧ IsCellContent content ∧ line = front ++ '~' :: content ∧
      path = trim front := by
  constructor
  · intro h
    have hcell : isCell line := by
      by_contra hcell
      rw [read, if_neg hcell] at h
      split_ifs at h
    obtain ⟨front, content', hfront, hcontent, rfl⟩ := exists_of_isCell hcell
    rw [read_of_isCell hcell, cut_append_cons hfront.notMem] at h
    cases h
    exact ⟨front, hfront, hcontent, rfl, rfl⟩
  · rintro ⟨front, hfront, hcontent, rfl, rfl⟩
    rw [read_of_isCell (isCell_append_cons hfront hcontent), cut_append_cons hfront.notMem]

/-- A cell has a path. -/
theorem path_ne_nil_of_read (h : read line = .cell path content) : path ≠ [] := by
  obtain ⟨_, ⟨gap, path', gap', ⟨hgap, hgap', -⟩, ⟨hne, hpath⟩, rfl⟩, -, -, rfl⟩ :=
    read_eq_cell_iff.1 h
  have hsolid : Solid path' := fun c hc ↦ isBlank_eq_false_of_isPathChar (hpath c hc)
  rwa [trim_append_append hgap hgap' hsolid.trim_eq]

end GrammarLine

/-! ## The rule -/

/-- A text that can be the rule of a cell: trimmed, on one line and without equals signs. -/
structure IsRuleText (rule : List Char) : Prop where
  /-- There is something in it. -/
  ne_nil : rule ≠ []
  /-- It does not begin with a blank. -/
  trimLeft_eq : trimLeft rule = rule
  /-- It does not end with a blank. -/
  trimRight_eq : trimRight rule = rule
  /-- It is on one line. -/
  newline : '\n' ∉ rule
  /-- Nothing in it ends it. -/
  equals : '=' ∉ rule

/-- What may stand around the rule of a cell: nothing but blanks, or other things set off by equals
signs. -/
inductive IsAroundRule : List Char → List Char → Prop
  /-- The rule stands alone. -/
  | alone {gap gap' : List Char} (hgap : allBlank gap) (hgap' : allBlank gap') :
      IsAroundRule gap gap'
  /-- Something is before it. -/
  | last {word gap gap' : List Char} (hword : '=' ∉ word) (hgap : allBlank gap)
      (hgap' : allBlank gap') : IsAroundRule (word ++ '=' :: gap) gap'
  /-- Something is on both sides of it. -/
  | between {word gap gap' more : List Char} (hword : '=' ∉ word) (hgap : allBlank gap)
      (hgap' : allBlank gap') : IsAroundRule (word ++ '=' :: gap) (gap' ++ '=' :: more)

section

variable {front before rule rule' after path content : List Char}

theorem IsRuleText.trim_eq (h : IsRuleText rule) : trim rule = rule := by
  rw [trim, h.trimLeft_eq, h.trimRight_eq]

theorem IsAroundRule.trimRight (h : IsAroundRule before after) :
    IsAroundRule before (trimRight after) := by
  have hblank {gap : List Char} (hgap : allBlank gap) : allBlank (Text.trimRight gap) := by
    rw [trimRight_of_allBlank hgap]
    rfl
  cases h with
  | alone hgap hgap' => exact .alone hgap (hblank hgap')
  | last hword hgap hgap' => exact .last hword hgap (hblank hgap')
  | between hword hgap hgap' =>
    rw [trimRight_append_cons _ _ (by decide)]
    exact .between hword hgap hgap'

/-- There is no equals sign in the rule of a cell. -/
theorem GrammarWalk.notMem_ruleText (content : List Char) : '=' ∉ ruleText content := by
  rw [ruleText]
  split
  · intro hmem
    simpa using List.mem_takeWhile_imp (trim_subset _ hmem)
  · next hcut =>
    intro hmem
    obtain ⟨_, hsome⟩ := exists_cut_eq_some (trim_subset _ hmem)
    rw [hcut] at hsome
    cases hsome

/-- **The rule of a cell** is found wherever it may stand. -/
theorem GrammarWalk.ruleText_append (hrule : IsRuleText rule)
    (haround : IsAroundRule before after) : ruleText (before ++ rule ++ after) = rule := by
  have hequals {gap gap' : List Char} (hgap : allBlank gap) (hgap' : allBlank gap') :
      '=' ∉ gap ++ rule ++ gap' := by
    simp only [List.mem_append, not_or]
    exact ⟨⟨notMem_of_allBlank hgap (by decide), hrule.equals⟩,
      notMem_of_allBlank hgap' (by decide)⟩
  cases haround with
  | alone hgap hgap' =>
    rw [ruleText, cut_eq_none (hequals hgap hgap')]
    exact trim_append_append hgap hgap' hrule.trim_eq
  | @last word gap _ hword hgap hgap' =>
    have hassoc : word ++ '=' :: gap ++ rule ++ after = word ++ '=' :: (gap ++ rule ++ after) := by
      simp
    rw [hassoc, ruleText, cut_append_cons hword]
    dsimp only
    rw [before_of_notMem (hequals hgap hgap'), trim_append_append hgap hgap' hrule.trim_eq]
  | @between word gap gap' more hword hgap hgap' =>
    have hassoc : word ++ '=' :: gap ++ rule ++ (gap' ++ '=' :: more)
        = word ++ '=' :: (gap ++ rule ++ gap' ++ '=' :: more) := by simp
    rw [hassoc, ruleText, cut_append_cons hword]
    dsimp only
    rw [before_append_cons (hequals hgap hgap'), trim_append_append hgap hgap' hrule.trim_eq]

namespace GrammarLine

/-- Whether a content is on one line does not depend on the rule in it. -/
theorem isCellContent_append_iff (hrule : IsRuleText rule) :
    IsCellContent (before ++ rule ++ after) ↔ IsCellContent before ∧ '\n' ∉ after := by
  have htrim (rest : List Char) :
      '\n' ∉ trimLeft (rest ++ rule ++ after) ↔ '\n' ∉ trimLeft rest ∧ '\n' ∉ after := by
    rw [trimLeft_append_append hrule.ne_nil hrule.trimLeft_eq]
    simp [hrule.newline]
  constructor
  · rintro ⟨c, rest, hc, hrest, heq⟩
    cases before with
    | nil =>
      -- The rule does not begin with a blank.
      obtain ⟨d, rule, rfl, hd⟩ := exists_cons_of_trimLeft_eq hrule.ne_nil hrule.trimLeft_eq
      obtain ⟨rfl, -⟩ := List.cons.inj heq
      rw [hc] at hd
      cases hd
    | cons b before =>
      obtain ⟨rfl, rfl⟩ := List.cons.inj heq
      exact ⟨⟨b, before, hc, ((htrim before).1 hrest).1, rfl⟩, ((htrim before).1 hrest).2⟩
  · rintro ⟨⟨c, rest, hc, hrest, rfl⟩, hafter⟩
    exact ⟨c, rest ++ rule ++ after, hc, (htrim rest).2 ⟨hrest, hafter⟩, rfl⟩

/-- **A cell with another rule** is a cell at the same place. -/
theorem read_trim_replaced (hrule : IsRuleText rule) (hrule' : IsRuleText rule')
    (hfront : '~' ∉ front)
    (h : read (trim (front ++ '~' :: (before ++ rule ++ after))) = .cell path content) :
    content = before ++ rule ++ trimRight after ∧
      read (trim (front ++ '~' :: (before ++ rule' ++ after)))
        = .cell path (before ++ rule' ++ trimRight after) := by
  have htrim {rule : List Char} (hrule : IsRuleText rule) :
      trim (front ++ '~' :: (before ++ rule ++ after))
        = trimLeft front ++ '~' :: (before ++ rule ++ trimRight after) := by
    rw [trim_append_cons _ _ (by decide), trimRight_append_append hrule.ne_nil hrule.trimRight_eq]
  have hstart : '~' ∉ trimLeft front := fun hmem ↦
    hfront ((List.dropWhile_sublist _).subset hmem)
  rw [htrim hrule] at h
  rw [htrim hrule']
  obtain ⟨start, hcellFront, hcellContent, heq, rfl⟩ := read_eq_cell_iff.1 h
  have hcut := congrArg (cut '~') heq
  rw [cut_append_cons hstart, cut_append_cons hcellFront.notMem] at hcut
  cases hcut
  rw [isCellContent_append_iff hrule, ← isCellContent_append_iff hrule'] at hcellContent
  exact ⟨rfl, read_eq_cell_iff.2 ⟨_, hcellFront, hcellContent, rfl, rfl⟩⟩

end GrammarLine

end

end Glossopoeia
