import Mathlib.Data.List.DropRight
import Glossopoeia.Text.Basic

/-!
# Texts without blanks

A text is solid if no blank stands in it.  What is solid is trimmed, and stays solid however it is
cut up and put together.  `trim_trim` says that to trim once is enough.
-/

set_option autoImplicit false

namespace Glossopoeia.Text

/-- Does no blank stand in the text? -/
def Solid (cs : List Char) : Prop := ∀ c ∈ cs, isBlank c = false

instance (cs : List Char) : Decidable (Solid cs) := decidable_of_iff (cs.all isSolid = true) <| by
  simp [Solid, isSolid]

theorem solid_nil : Solid [] := fun _ h ↦ absurd h List.not_mem_nil

variable {a b : List Char}

theorem Solid.append (ha : Solid a) (hb : Solid b) : Solid (a ++ b) :=
  fun c hc ↦ (List.mem_append.1 hc).elim (ha c) (hb c)

theorem Solid.subset (hb : Solid b) (h : a ⊆ b) : Solid a := fun c hc ↦ hb c (h hc)

theorem solid_flatten {texts : List (List Char)} (h : ∀ text ∈ texts, Solid text) :
    Solid texts.flatten := by
  intro c hc
  obtain ⟨text, htext, hc⟩ := List.mem_flatten.1 hc
  exact h text htext c hc

/-! ## Trimming -/

theorem trimRight_eq_rdropWhile (cs : List Char) : trimRight cs = cs.rdropWhile isBlank := rfl

theorem Solid.trimLeft_eq (h : Solid a) : trimLeft a = a := by
  rw [trimLeft, List.dropWhile_eq_self_iff]
  intro hpos
  rw [h _ (List.getElem_mem hpos)]
  exact Bool.false_ne_true

theorem Solid.trimRight_eq (h : Solid a) : trimRight a = a := by
  rw [trimRight_eq_rdropWhile, List.rdropWhile_eq_self_iff]
  intro hne
  rw [h _ (List.getLast_mem hne)]
  exact Bool.false_ne_true

theorem Solid.trim_eq (h : Solid a) : trim a = a := by
  rw [trim, h.trimLeft_eq, h.trimRight_eq]

theorem allBlank_iff {cs : List Char} : allBlank cs ↔ ∀ c ∈ cs, isBlank c = true :=
  List.all_eq_true

theorem notMem_of_allBlank {c : Char} {gap : List Char} (h : allBlank gap)
    (hc : isBlank c = false) : c ∉ gap := fun hmem ↦ by
  rw [allBlank_iff.1 h c hmem] at hc
  cases hc

theorem trimLeft_cons {c : Char} (h : isBlank c = false) (rest : List Char) :
    trimLeft (c :: rest) = c :: rest :=
  List.dropWhile_cons_of_neg (by simp [h])

theorem trimLeft_append {gap : List Char} (h : allBlank gap) (rest : List Char) :
    trimLeft (gap ++ rest) = trimLeft rest :=
  List.dropWhile_append_of_pos (allBlank_iff.1 h)

theorem trimRight_append {gap : List Char} (h : allBlank gap) (rest : List Char) :
    trimRight (rest ++ gap) = trimRight rest := by
  rw [trimRight, List.reverse_append, List.dropWhile_append_of_pos fun c hc ↦
    allBlank_iff.1 h c (List.mem_reverse.1 hc), trimRight]

theorem trimRight_of_allBlank {gap : List Char} (h : allBlank gap) : trimRight gap = [] :=
  List.rdropWhile_eq_nil_iff.2 (allBlank_iff.1 h)

/-- Trimming adds nothing. -/
theorem trim_subset (cs : List Char) : trim cs ⊆ cs := by
  intro c hc
  exact (List.dropWhile_suffix isBlank).subset ((List.rdropWhile_prefix isBlank _).subset hc)

/-- Trimming the start takes blanks away. -/
theorem trimLeft_eq_iff {cs rest : List Char} :
    trimLeft cs = rest ↔ ∃ gap, allBlank gap ∧ cs = gap ++ rest ∧ trimLeft rest = rest := by
  constructor
  · rintro rfl
    exact ⟨cs.takeWhile isBlank, allBlank_iff.2 fun c ↦ List.mem_takeWhile_imp,
      List.takeWhile_append_dropWhile.symm, List.dropWhile_idempotent ..⟩
  · rintro ⟨gap, hgap, rfl, hrest⟩
    rw [trimLeft_append hgap, hrest]

/-- Trimming the end takes blanks away. -/
theorem trimRight_eq_iff {cs kept : List Char} :
    trimRight cs = kept ↔ ∃ gap, allBlank gap ∧ cs = kept ++ gap ∧ trimRight kept = kept := by
  constructor
  · rintro rfl
    have hidem : trimRight (trimRight cs) = trimRight cs := by
      rw [trimRight_eq_rdropWhile, trimRight_eq_rdropWhile, List.rdropWhile_idempotent]
    refine ⟨cs.rtakeWhile isBlank, allBlank_iff.2 fun c ↦ List.mem_rtakeWhile_imp, ?_, hidem⟩
    rw [trimRight_eq_rdropWhile, List.rdropWhile_append_rtakeWhile]
  · rintro ⟨gap, hgap, rfl, hkept⟩
    rw [trimRight_append hgap, hkept]

/-- What is left does not begin with a character that is dropped. -/
theorem of_mem_head?_dropWhile {p : Char → Bool} {cs : List Char} {c : Char}
    (h : c ∈ (cs.dropWhile p).head?) : p c = false := by
  simpa [Option.mem_def.1 h] using List.head?_dropWhile_not p cs

theorem isBlank_of_trimLeft_eq_cons {cs rest : List Char} {c : Char}
    (h : trimLeft cs = c :: rest) : isBlank c = false :=
  of_mem_head?_dropWhile (congrArg List.head? h)

/-- What is left of the end of a text is left of the text. -/
theorem trimRight_subset_of_suffix {part whole : List Char} (h : part <:+ whole) :
    trimRight part ⊆ trimRight whole := by
  obtain ⟨front, rfl⟩ := h
  rw [trimRight, trimRight, List.reverse_append, List.dropWhile_append]
  split
  · next hnil =>
    rw [List.isEmpty_iff.1 hnil]
    exact List.nil_subset _
  · rw [List.reverse_append]
    exact List.subset_append_right ..

/-- What is trimmed at its start still is after it has been trimmed at its end. -/
theorem trimLeft_trimRight_trimLeft (cs : List Char) :
    trimLeft (trimRight (trimLeft cs)) = trimRight (trimLeft cs) := by
  obtain ⟨rest, hrest⟩ := List.rdropWhile_prefix isBlank (trimLeft cs)
  rw [← trimRight_eq_rdropWhile] at hrest
  cases hkept : trimRight (trimLeft cs) with
  | nil => rfl
  | cons c kept =>
    rw [hkept] at hrest
    exact trimLeft_cons (isBlank_of_trimLeft_eq_cons hrest.symm) kept

/-- **Trimming twice is trimming once.** -/
theorem trim_trim (cs : List Char) : trim (trim cs) = trim cs := by
  rw [trim, trim, trimLeft_trimRight_trimLeft, trimRight_eq_rdropWhile, trimRight_eq_rdropWhile,
    List.rdropWhile_idempotent]

/-- Nothing is left of a text exactly if there is nothing but blanks in it. -/
theorem trim_eq_nil_iff {cs : List Char} : trim cs = [] ↔ allBlank cs = true := by
  rw [trim, trimRight_eq_rdropWhile, List.rdropWhile_eq_nil_iff, allBlank, List.all_eq_true]
  constructor
  · intro h
    cases hleft : trimLeft cs with
    | nil => exact List.dropWhile_eq_nil_iff.1 hleft
    | cons c rest =>
      have hblank : isBlank c = true := h c (hleft ▸ List.mem_cons_self ..)
      rw [isBlank_of_trimLeft_eq_cons hleft] at hblank
      cases hblank
  · exact fun h c hc ↦ h c ((List.dropWhile_sublist _).subset hc)

/-- Trimming takes blanks away. -/
theorem exists_append_trim_append (cs : List Char) :
    ∃ gap gap', allBlank gap ∧ allBlank gap' ∧ cs = gap ++ trim cs ++ gap' := by
  obtain ⟨gap, hgap, hleft, -⟩ := trimLeft_eq_iff.1 (Eq.refl (trimLeft cs))
  obtain ⟨gap', hgap', hright, -⟩ := trimRight_eq_iff.1 (Eq.refl (trimRight (trimLeft cs)))
  refine ⟨gap, gap', hgap, hgap', hleft.trans ?_⟩
  rw [List.append_assoc]
  exact congrArg _ hright

/-- What is no blank is not trimmed away. -/
theorem count_trim {c : Char} (hc : isBlank c = false) (cs : List Char) :
    (trim cs).count c = cs.count c := by
  obtain ⟨gap, gap', hgap, hgap', hcs⟩ := exists_append_trim_append cs
  have hcount := congrArg (List.count c) hcs
  rw [List.count_append, List.count_append,
    List.count_eq_zero_of_not_mem (notMem_of_allBlank hgap hc),
    List.count_eq_zero_of_not_mem (notMem_of_allBlank hgap' hc)] at hcount
  omega

theorem trimString_of_solid {s : String} (h : Solid s.toList) : trimString s = s := by
  rw [trimString, onString, h.trim_eq, String.ofList_toList]

end Glossopoeia.Text
