import Mathlib.Data.List.TakeDrop
import Glossopoeia.Pattern.Template
import Glossopoeia.Proofs.Text.Cuts

/-!
# The two readings of a replacement text

Spelling puts the groups of a replacement text into braces and expands what comes of it, and
sounding out takes the text apart directly.  Both look for dollar signs and the digits behind them,
so a text has one division into parts off which either reading can be read, part by part
(`Template.parts`).  The readings differ in those parts alone whose number the direct one does not
know: spelling puts a group there, which no pattern has, and sounding out a dollar sign.

The syntax of braced texts is `Template.Expands`, a relation that does not say how such a text is
scanned.  `Template.expands_braced_direct` is the result: a braced form has one expansion, and it is
what the direct reading fills in exactly if it knows all numbers of the text.
-/

set_option autoImplicit false

namespace Glossopoeia

open Text

/-- A part of a replacement text. -/
inductive TemplatePart where
  /-- A character that is copied. -/
  | copied (c : Char)
  /-- A dollar sign and the digits behind it. -/
  | dollar (digits : List Char)
deriving DecidableEq, Repr

namespace TemplatePart

/-- How the part is written in braced form. -/
def braced : TemplatePart → List Char
  | copied c => [c]
  | dollar digits => Template.bracedFrom.reference digits.reverse

/-- What the braced form of the part is read as. -/
def ofBraced : TemplatePart → TemplatePiece
  | copied c => .literal [c]
  | dollar [] => .literal ['$']
  | dollar digits => .group (numberOf digits)

/-- What the direct reading makes of the part. -/
def direct : TemplatePart → TemplatePiece
  | copied c => .literal [c]
  | dollar digits => Template.directReference digits.reverse

/-- Is the part one of a text: a dollar sign is never copied, and has only digits behind it? -/
def IsWritten : TemplatePart → Prop
  | copied c => c ≠ '$'
  | dollar digits => ∀ d ∈ digits, isAsciiDigit d = true

/-- Does the direct reading know the number of the part? -/
def Fits : TemplatePart → Prop
  | copied _ => True
  | dollar digits => numberOf digits < Nat.pow 2 64

end TemplatePart

namespace Template

/-! ## Parts -/

theorem leadingDigits_eq (cs : List Char) :
    leadingDigits cs = (cs.takeWhile isAsciiDigit, cs.dropWhile isAsciiDigit) :=
  List.span_eq_takeWhile_dropWhile _ _

/-- The parts of a replacement text. -/
def parts : List Char → List TemplatePart
  | [] => []
  | c :: rest =>
    if c = '$' then .dollar (leadingDigits rest).1 :: parts (leadingDigits rest).2
    else .copied c :: parts rest
termination_by cs => cs.length
decreasing_by
  · have := (List.dropWhile_sublist isAsciiDigit (l := rest)).length_le
    simp only [leadingDigits_eq, List.length_cons]
    omega
  · exact Nat.lt_succ_self _

theorem parts_dollar (rest : List Char) :
    parts ('$' :: rest) = .dollar (leadingDigits rest).1 :: parts (leadingDigits rest).2 := by
  rw [parts, if_pos rfl]

theorem parts_cons {c : Char} (hc : c ≠ '$') (rest : List Char) :
    parts (c :: rest) = .copied c :: parts rest := by
  rw [parts, if_neg hc]

theorem isWritten_of_mem_parts (cs : List Char) : ∀ part ∈ parts cs, part.IsWritten := by
  induction cs using parts.induct with
  | case1 =>
    rw [parts]
    exact fun _ h ↦ absurd h List.not_mem_nil
  | case2 rest ih =>
    rw [parts_dollar]
    refine List.forall_mem_cons.2 ⟨fun d hd ↦ ?_, ih⟩
    rw [leadingDigits_eq] at hd
    exact List.mem_takeWhile_imp hd
  | case3 c rest hc ih =>
    rw [parts_cons hc]
    exact List.forall_mem_cons.2 ⟨hc, ih⟩

/-- The dollar signs among the parts are those of the text. -/
theorem dollar_mem_parts_iff {cs digits : List Char} :
    .dollar digits ∈ parts cs ↔
      ∃ pre rest, cs = pre ++ '$' :: rest ∧ digits = (leadingDigits rest).1 := by
  induction cs using parts.induct with
  | case1 => simp [parts]
  | case2 rest ih =>
    have hsplit : (leadingDigits rest).1 ++ (leadingDigits rest).2 = rest := by
      rw [leadingDigits_eq]
      exact List.takeWhile_append_dropWhile
    rw [parts_dollar, List.mem_cons, ih, TemplatePart.dollar.injEq]
    constructor
    · rintro (rfl | ⟨pre, more, heq, rfl⟩)
      · exact ⟨[], rest, rfl, rfl⟩
      · refine ⟨'$' :: ((leadingDigits rest).1 ++ pre), more, ?_, rfl⟩
        rw [List.cons_append, List.append_assoc, ← heq, hsplit]
    · rintro ⟨_ | ⟨c, pre⟩, more, heq, rfl⟩
      · exact .inl (congrArg (fun cs ↦ (leadingDigits cs).1) (List.cons.inj heq).2.symm)
      · -- A dollar sign behind the first one is no digit of it.
        refine .inr ⟨pre.dropWhile isAsciiDigit, more, ?_, rfl⟩
        rw [(List.cons.inj heq).2, leadingDigits_eq]
        exact dropWhile_append_cons (by decide) pre more
  | case3 c rest hc ih =>
    rw [parts_cons hc, List.mem_cons, ih]
    constructor
    · rintro (h | ⟨pre, more, rfl, rfl⟩)
      · cases h
      · exact ⟨c :: pre, more, rfl, rfl⟩
    · rintro ⟨_ | ⟨d, pre⟩, more, heq, rfl⟩
      · exact absurd (List.cons.inj heq).1 hc
      · exact .inr ⟨pre, more, (List.cons.inj heq).2, rfl⟩

/-! ## The readings by parts -/

theorem bracedFrom_some (digits cs : List Char) :
    bracedFrom (some digits) cs
      = bracedFrom.reference ((leadingDigits cs).1.reverse ++ digits)
        ++ bracedFrom none (leadingDigits cs).2 := by
  rw [leadingDigits_eq]
  induction cs generalizing digits with
  | nil => simp [bracedFrom]
  | cons c rest ih =>
    by_cases hc : isAsciiDigit c = true
    · rw [bracedFrom, if_pos hc, ih, List.takeWhile_cons_of_pos hc, List.dropWhile_cons_of_pos hc]
      simp
    · rw [bracedFrom, if_neg hc, List.takeWhile_cons_of_neg hc, List.dropWhile_cons_of_neg hc,
        bracedFrom]
      split <;> rfl

theorem directFrom_some (digits cs : List Char) :
    directFrom (some digits) cs
      = directReference ((leadingDigits cs).1.reverse ++ digits)
        :: directFrom none (leadingDigits cs).2 := by
  rw [leadingDigits_eq]
  induction cs generalizing digits with
  | nil => simp [directFrom]
  | cons c rest ih =>
    by_cases hc : isAsciiDigit c = true
    · rw [directFrom, if_pos hc, ih, List.takeWhile_cons_of_pos hc, List.dropWhile_cons_of_pos hc]
      simp
    · rw [directFrom, if_neg hc, List.takeWhile_cons_of_neg hc, List.dropWhile_cons_of_neg hc,
        directFrom]
      split <;> rfl

/-- The braced form is put together part by part. -/
theorem braced_eq_flatMap (cs : List Char) :
    braced cs = (parts cs).flatMap TemplatePart.braced := by
  rw [braced]
  induction cs using parts.induct with
  | case1 => simp [parts, bracedFrom]
  | case2 rest ih =>
    rw [parts_dollar, List.flatMap_cons, ← ih, bracedFrom, if_pos rfl, bracedFrom_some,
      List.append_nil]
    rfl
  | case3 c rest hc ih =>
    rw [parts_cons hc, List.flatMap_cons, ← ih, bracedFrom, if_neg hc]
    rfl

/-- **The direct reading** takes a text apart into the pieces of its parts. -/
theorem direct_eq_map (cs : List Char) : direct cs = (parts cs).map TemplatePart.direct := by
  rw [direct]
  induction cs using parts.induct with
  | case1 => simp [parts, directFrom]
  | case2 rest ih =>
    rw [parts_dollar, List.map_cons, ← ih, directFrom, if_pos rfl, directFrom_some,
      List.append_nil]
    rfl
  | case3 c rest hc ih =>
    rw [parts_cons hc, List.map_cons, ← ih, directFrom, if_neg hc]
    rfl

/-! ## Braced texts -/

/-- **The syntax of braced texts**, and what they expand to: two dollar signs are one, a number in
braces is a group, which may be missing, and all else is copied. -/
inductive Expands (groups : Nat → Option (List Char)) : List Char → List Char → Prop
  /-- Nothing. -/
  | nil : Expands groups [] []
  /-- A character. -/
  | copied {c : Char} {cs out : List Char} (hc : c ≠ '$') (h : Expands groups cs out) :
      Expands groups (c :: cs) (c :: out)
  /-- A dollar sign. -/
  | dollar {cs out : List Char} (h : Expands groups cs out) :
      Expands groups ('$' :: '$' :: cs) ('$' :: out)
  /-- A group. -/
  | group {digits cs out : List Char} (hne : digits ≠ [])
      (hdigits : ∀ d ∈ digits, isAsciiDigit d = true) (h : Expands groups cs out) :
      Expands groups ('$' :: '{' :: (digits ++ '}' :: cs))
        ((groups (numberOf digits)).getD [] ++ out)

theorem ofBraced_cons {c : Char} (hc : c ≠ '$') (cs : List Char) :
    ofBraced (c :: cs) = .literal [c] :: ofBraced cs := by
  rw [ofBraced]
  · rintro _ rfl
    exact absurd rfl hc
  · rintro _ rfl
    exact absurd rfl hc

theorem inBraces_append {digits : List Char} (h : ∀ d ∈ digits, isAsciiDigit d = true)
    (taken cs : List Char) :
    ofBraced.inBraces taken (digits ++ '}' :: cs)
      = .group (numberOf (taken.reverse ++ digits)) :: ofBraced cs := by
  induction digits generalizing taken with
  | nil => rw [List.nil_append, ofBraced.inBraces, List.append_nil]
  | cons d rest ih =>
    obtain ⟨hd, hrest⟩ := List.forall_mem_cons.1 h
    have hbrace : d ≠ '}' := by
      rintro rfl
      exact absurd hd (by decide)
    rw [List.cons_append, ofBraced.inBraces, ih hrest]
    · simp
    · exact hbrace

theorem ofBraced_group {digits : List Char} (h : ∀ d ∈ digits, isAsciiDigit d = true)
    (cs : List Char) :
    ofBraced ('$' :: '{' :: (digits ++ '}' :: cs)) = .group (numberOf digits) :: ofBraced cs := by
  rw [ofBraced, inBraces_append h]
  rfl

variable {groups : Nat → Option (List Char)}

/-- The reader of braced texts follows their syntax. -/
theorem eq_fill_of_expands {cs out : List Char} (h : Expands groups cs out) :
    out = fill groups (ofBraced cs) := by
  induction h with
  | nil => rfl
  | copied hc _ ih =>
    rw [ofBraced_cons hc, ih]
    rfl
  | dollar _ ih =>
    rw [ofBraced, ih]
    rfl
  | group _ hdigits _ ih =>
    rw [ofBraced_group hdigits, ih]
    rfl

theorem fill_cons (piece : TemplatePiece) (t : Template) :
    fill groups (piece :: t) = fill groups [piece] ++ fill groups t := by
  rw [fill, fill, fill, List.flatMap_cons, List.flatMap_singleton]

/-- The braced form of a part expands to what it is read as. -/
theorem Expands.part {cs out : List Char} (h : Expands groups cs out) {part : TemplatePart}
    (hpart : part.IsWritten) :
    Expands groups (part.braced ++ cs) (fill groups [part.ofBraced] ++ out) := by
  cases part with
  | copied c => exact .copied hpart h
  | dollar digits =>
    cases digits with
    | nil => exact .dollar h
    | cons d rest =>
      have hbraced : (TemplatePart.dollar (d :: rest)).braced ++ cs
          = '$' :: '{' :: (d :: rest ++ '}' :: cs) := by
        rw [TemplatePart.braced, bracedFrom.reference]
        · simp
        · simp
      have hfill : fill groups [(TemplatePart.dollar (d :: rest)).ofBraced] ++ out
          = (groups (numberOf (d :: rest))).getD [] ++ out := by
        simp [fill, TemplatePart.ofBraced]
      rw [hbraced, hfill]
      exact .group (List.cons_ne_nil d rest) hpart h

/-- Every braced form has an expansion. -/
theorem expands_braced (groups : Nat → Option (List Char)) (cs : List Char) :
    Expands groups (braced cs) (fill groups ((parts cs).map TemplatePart.ofBraced)) := by
  have hparts := isWritten_of_mem_parts cs
  rw [braced_eq_flatMap]
  generalize parts cs = list at hparts ⊢
  induction list with
  | nil => exact .nil
  | cons part rest ih =>
    obtain ⟨hpart, hrest⟩ := List.forall_mem_cons.1 hparts
    rw [List.flatMap_cons, List.map_cons, fill_cons]
    exact (ih hrest).part hpart

/-! ## The readings compared -/

theorem indexLimit_lt_iff {n : Nat} : indexLimit < n ↔ ¬n < Nat.pow 2 64 := by
  have hpos : 0 < Nat.pow 2 64 := Nat.pow_pos (by decide)
  rw [indexLimit]
  omega

/-- Does the direct reading know all numbers of the text: those that stand behind its dollar
signs? -/
def NumbersFit (cs : List Char) : Prop :=
  ∀ pre rest, cs = pre ++ '$' :: rest → numberOf (leadingDigits rest).1 < Nat.pow 2 64

theorem numbersFit_iff {cs : List Char} : NumbersFit cs ↔ ∀ part ∈ parts cs, part.Fits := by
  constructor
  · rintro h (c | digits) hpart
    · trivial
    · obtain ⟨pre, rest, rfl, rfl⟩ := dollar_mem_parts_iff.1 hpart
      exact h pre rest rfl
  · rintro h pre rest rfl
    exact h _ (dollar_mem_parts_iff.2 ⟨pre, rest, rfl, rfl⟩)

end Template

namespace TemplatePart

/-- A part with a number that fits is the same in both readings. -/
theorem direct_eq_ofBraced {part : TemplatePart} (h : part.Fits) : part.direct = part.ofBraced := by
  cases part with
  | copied c => rfl
  | dollar digits =>
    cases digits with
    | nil => rfl
    | cons d rest =>
      have hlimit : ¬Template.indexLimit < numberOf (d :: rest) :=
        fun hlt ↦ Template.indexLimit_lt_iff.1 hlt h
      simp [direct, ofBraced, Template.directReference, hlimit]

/-- Of one that does not fit, the direct reading makes a dollar sign and the other one a group. -/
theorem of_not_fits {part : TemplatePart} (h : ¬part.Fits) :
    part.direct = .literal ['$'] ∧ ∃ n, part.ofBraced = .group n := by
  cases part with
  | copied c => exact absurd trivial h
  | dollar digits =>
    cases digits with
    | nil => exact absurd (by decide : numberOf [] < Nat.pow 2 64) h
    | cons d rest =>
      have hlimit : Template.indexLimit < numberOf (d :: rest) :=
        Template.indexLimit_lt_iff.2 h
      exact ⟨by simp [direct, Template.directReference, hlimit], _, rfl⟩

end TemplatePart

namespace Template

/-- Where no group has a text, spelling writes no more than sounding out. -/
theorem length_fill_le (list : List TemplatePart) :
    (fill (fun _ ↦ none) (list.map TemplatePart.ofBraced)).length
      ≤ (fill (fun _ ↦ none) (list.map TemplatePart.direct)).length := by
  induction list with
  | nil => exact Nat.le_refl _
  | cons part rest ih =>
    by_cases h : part.Fits
    · rw [List.map_cons, List.map_cons, TemplatePart.direct_eq_ofBraced h, fill_cons,
        fill_cons _ (rest.map TemplatePart.direct), List.length_append, List.length_append]
      exact Nat.add_le_add_left ih _
    · obtain ⟨hdirect, n, hbraced⟩ := TemplatePart.of_not_fits h
      rw [List.map_cons, List.map_cons, hdirect, hbraced]
      exact Nat.le_succ_of_le ih

/-- Parts that are filled alike in both readings where no group has a text have numbers that
fit. -/
theorem forall_fits_of_fill_eq {list : List TemplatePart}
    (h : fill (fun _ ↦ none) (list.map TemplatePart.direct)
      = fill (fun _ ↦ none) (list.map TemplatePart.ofBraced)) : ∀ part ∈ list, part.Fits := by
  induction list with
  | nil => exact fun _ h ↦ absurd h List.not_mem_nil
  | cons part rest ih =>
    by_cases hpart : part.Fits
    · rw [List.map_cons, List.map_cons, TemplatePart.direct_eq_ofBraced hpart] at h
      exact List.forall_mem_cons.2 ⟨hpart, ih (List.append_cancel_left h)⟩
    · -- The dollar sign is one character too many.
      obtain ⟨hdirect, n, hbraced⟩ := TemplatePart.of_not_fits hpart
      rw [List.map_cons, List.map_cons, hdirect, hbraced] at h
      exact absurd (congrArg List.length h) (Nat.ne_of_gt (Nat.lt_succ_of_le (length_fill_le rest)))

/-- **Both readings of a replacement text agree.**  Whatever the groups hold, the braced form of the
text expands to one text alone, the one that spelling fills in.  Sounding out always fills in the
same one exactly if the number behind each dollar sign is below two to the sixty-fourth. -/
theorem expands_braced_direct (cs : List Char) :
    (∀ groups out, Expands groups (braced cs) out ↔ out = fill groups (ofBraced (braced cs))) ∧
      ((∀ groups, Expands groups (braced cs) (fill groups (direct cs))) ↔ NumbersFit cs) := by
  have hfill (groups : Nat → Option (List Char)) : fill groups (ofBraced (braced cs))
      = fill groups ((parts cs).map TemplatePart.ofBraced) :=
    (eq_fill_of_expands (expands_braced groups cs)).symm
  refine ⟨fun groups out ↦ ⟨eq_fill_of_expands, ?_⟩, ?_⟩
  · rintro rfl
    rw [hfill]
    exact expands_braced groups cs
  rw [direct_eq_map, numbersFit_iff]
  constructor
  · intro h
    exact forall_fits_of_fill_eq ((eq_fill_of_expands (h _)).trans (hfill _))
  · intro h groups
    rw [List.map_congr_left fun part hpart ↦ TemplatePart.direct_eq_ofBraced (h part hpart)]
    exact expands_braced groups cs

/-- Digits belong to the dollar sign right before them, and to no other. -/
example : direct "$$12$a3".toList
    = [.literal ['$'], .group 12, .literal ['$'], .literal ['a'], .literal ['3']] := by
  decide

end Template

end Glossopoeia
