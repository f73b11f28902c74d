import Glossopoeia.Proofs.Pattern.Literal

/-!
# Greedy repetition

A greedy repetition of a set of characters tries the longest run first, and gives back one character
after the other while the rest of the match refuses.  It has no use for that if a rest that refuses
the place behind the longest run refuses the place before it too (`Rest.Exhausts`).  Then the
repetition passes over the longest run or does not match (`any_eq`, `many_eq`).

This is so of a rest that never accepts a place before such a character (`exhausts_of_forall_not`),
and of one that asks only what follows, and is satisfied with an end of any text that satisfies it
(`Rest.LooksFor`).  A repetition before a rest of the latter kind is itself such a rest
(`LooksFor.any`).
-/

set_option autoImplicit false

namespace Glossopoeia

open Pattern

/-- The place behind the longest run of such characters. -/
def Cursor.skipWhile (s : Cursor) (p : Char → Bool) : Cursor :=
  ⟨(s.after.takeWhile p).reverse ++ s.before, s.after.dropWhile p, s.groups⟩

theorem Cursor.skipWhile_cons {before rest : List Char} {groups : List (Nat × List Char)} {c : Char}
    {p : Char → Bool} (h : p c = true) :
    Cursor.skipWhile ⟨before, c :: rest, groups⟩ p
      = Cursor.skipWhile ⟨c :: before, rest, groups⟩ p := by
  simp [skipWhile, h]

theorem Cursor.skipWhile_eq_self {s : Cursor} {p : Char → Bool}
    (h : s.after.takeWhile p = []) : s.skipWhile p = s := by
  have hdrop : s.after.dropWhile p = s.after := by
    have := List.takeWhile_append_dropWhile (p := p) (l := s.after)
    rwa [h] at this
  rw [skipWhile, h, hdrop]
  rfl

/-- The text stays the same around the place. -/
theorem Cursor.reverse_append_skipWhile (s : Cursor) (p : Char → Bool) :
    (s.skipWhile p).after.reverse ++ (s.skipWhile p).before = s.after.reverse ++ s.before := by
  rw [skipWhile, ← List.append_assoc, ← List.reverse_append, List.takeWhile_append_dropWhile]

/-- If nothing follows the run, the text has been passed over. -/
theorem Cursor.skipWhile_eq_end {s : Cursor} {p : Char → Bool} (h : (s.skipWhile p).after = []) :
    s.skipWhile p = ⟨s.after.reverse ++ s.before, [], s.groups⟩ := by
  have hbefore := s.reverse_append_skipWhile p
  rw [h] at hbefore
  calc s.skipWhile p = ⟨(s.skipWhile p).before, (s.skipWhile p).after, s.groups⟩ := rfl
    _ = ⟨s.after.reverse ++ s.before, [], s.groups⟩ := by rw [h, ← hbefore]; rfl

/-- The run is what is remembered of it. -/
theorem Cursor.textFrom_skipWhile (s : Cursor) (p : Char → Bool) :
    s.textFrom (s.skipWhile p) = s.after.takeWhile p := by
  simp [textFrom, skipWhile]

/-- If the rest of a match refuses the place behind the longest run of such characters, it refuses
the place before the run too, whatever has been remembered. -/
def Rest.Exhausts (k : Rest) (p : Char → Bool) : Prop :=
  ∀ (s : Cursor) (groups groups' : List (Nat × List Char)),
    k { s.skipWhile p with groups := groups } = none → k { s with groups := groups' } = none

namespace Rest.Exhausts

variable {k : Rest}

/-- What has been remembered does not matter. -/
theorem remember {p : Char → Bool} (h : k.Exhausts p) (f : Cursor → List (Nat × List Char)) :
    Rest.Exhausts (fun t ↦ k { t with groups := f t }) p :=
  fun s _ _ hnone ↦ h s _ _ hnone

/-- To give back the longest run is of no use. -/
theorem orElse_eq {p : Char → Bool} (h : k.Exhausts p) (s : Cursor) :
    (k (s.skipWhile p) <|> k s) = k (s.skipWhile p) := by
  cases hlongest : k (s.skipWhile p) with
  | some t => rfl
  | none => exact h s _ s.groups hlongest

variable {set : CharSet}

theorem more_eq (h : k.Exhausts set.contains) {before after : List Char}
    {groups : List (Nat × List Char)} {fuel : Nat} (hfuel : after.length ≤ fuel) :
    Step.more (one set).run true fuel ⟨before, after, groups⟩ k
      = k (Cursor.skipWhile ⟨before, after, groups⟩ set.contains) := by
  induction after generalizing before fuel with
  | nil => cases fuel <;> rfl
  | cons c rest ih =>
    obtain ⟨fuel, rfl⟩ : ∃ n, fuel = n + 1 := ⟨fuel - 1, by simp at hfuel; omega⟩
    by_cases hc : set.contains c = true
    · have hadvanced : Cursor.advanced ⟨before, c :: rest, groups⟩ ⟨c :: before, rest, groups⟩
          = true := by simp [Cursor.advanced]
      rw [Step.more, run]
      simp only [hc, if_true, hadvanced, ih (Nat.le_of_succ_le_succ hfuel)]
      rw [← Cursor.skipWhile_cons hc]
      exact h.orElse_eq _
    · have hstay : Cursor.skipWhile ⟨before, c :: rest, groups⟩ set.contains
          = ⟨before, c :: rest, groups⟩ := Cursor.skipWhile_eq_self (by simp [hc])
      rw [Step.more, run, hstay]
      simp [hc]

/-- At least one character, as many as there are. -/
theorem many_eq (h : k.Exhausts set.contains) (s : Cursor) :
    Step.many (one set).run true s k
      = if s.after.takeWhile set.contains = [] then none else k (s.skipWhile set.contains) := by
  obtain ⟨before, after, groups⟩ := s
  rw [Step.many, run]
  cases after with
  | nil => rfl
  | cons c rest =>
    by_cases hc : set.contains c = true
    · have hadvanced : Cursor.advanced ⟨before, c :: rest, groups⟩ ⟨c :: before, rest, groups⟩
          = true := by simp [Cursor.advanced]
      simp only [hc, if_true, hadvanced, h.more_eq (Nat.le_refl _), Cursor.skipWhile_cons,
        List.takeWhile_cons_of_pos, List.cons_ne_nil, if_false]
    · simp [hc]

/-- As many characters as there are. -/
theorem any_eq (h : k.Exhausts set.contains) (s : Cursor) :
    Step.any (one set).run true s k = k (s.skipWhile set.contains) := by
  rw [Step.any, if_pos rfl, h.many_eq]
  split
  · next hnone =>
    rw [Cursor.skipWhile_eq_self hnone]
    rfl
  · exact h.orElse_eq _

/-! ## Patterns -/

theorem run_any_eq (h : k.Exhausts set.contains) (s : Cursor) :
    (repeated (one set) 0 none true).run s k = k (s.skipWhile set.contains) := h.any_eq s

theorem run_group_any_eq (h : k.Exhausts set.contains) (index : Nat) (s : Cursor) :
    (group index (repeated (one set) 0 none true)).run s k
      = k { s.skipWhile set.contains with
          groups := (index, s.after.takeWhile set.contains) :: s.groups } := by
  have hrun : Step.any (one set).run true s _ = _ :=
    (h.remember fun t ↦ (index, s.textFrom t) :: t.groups).any_eq s
  rw [Cursor.textFrom_skipWhile] at hrun
  exact hrun

theorem run_group_many_eq (h : k.Exhausts set.contains) (index : Nat) (s : Cursor) :
    (group index (repeated (one set) 1 none true)).run s k
      = if s.after.takeWhile set.contains = [] then none
        else k { s.skipWhile set.contains with
          groups := (index, s.after.takeWhile set.contains) :: s.groups } := by
  have hrun : Step.many (one set).run true s _ = _ :=
    (h.remember fun t ↦ (index, s.textFrom t) :: t.groups).many_eq s
  rw [Cursor.textFrom_skipWhile] at hrun
  exact hrun

end Rest.Exhausts

/-! ## Rests that make a repetition exhaust a run -/

/-- A rest that accepts no place before such a character, whatever has been remembered. -/
theorem Rest.exhausts_of_forall_not {k : Rest} {p : Char → Bool} {P : List Char → Prop}
    (hk : ∀ t : Cursor, k t = none ↔ ¬P t.after) (hP : ∀ c rest, p c = true → ¬P (c :: rest)) :
    k.Exhausts p := by
  intro s groups groups' hnone
  rw [hk] at hnone ⊢
  cases hafter : s.after with
  | nil => simpa [Cursor.skipWhile, hafter] using hnone
  | cons c rest =>
    by_cases hc : p c = true
    · exact hP c rest hc
    · simpa [Cursor.skipWhile, hafter, hc] using hnone

/-- Whether the rest of a match accepts a place depends on what follows, which must satisfy `P`; and
what satisfies `P` has no end that does not. -/
structure Rest.LooksFor (k : Rest) (P : List Char → Prop) : Prop where
  /-- It refuses the places that are not followed by such a text. -/
  eq_none_iff : ∀ t : Cursor, k t = none ↔ ¬P t.after
  /-- The ends of such texts are such texts. -/
  of_append : ∀ a b, P (a ++ b) → P b

namespace Rest.LooksFor

variable {k : Rest} {P : List Char → Prop}

theorem exhausts (h : k.LooksFor P) (p : Char → Bool) : k.Exhausts p := by
  intro s groups groups' hnone
  rw [h.eq_none_iff] at hnone ⊢
  refine fun hall ↦ hnone (h.of_append (s.after.takeWhile p) _ ?_)
  rwa [Cursor.skipWhile, List.takeWhile_append_dropWhile]

/-- A repetition asks what follows the longest run. -/
theorem any (h : k.LooksFor P) (set : CharSet) :
    Rest.LooksFor (fun t ↦ (repeated (one set) 0 none true).run t k)
      (fun cs ↦ P (cs.dropWhile set.contains)) where
  eq_none_iff t := by
    rw [(h.exhausts _).run_any_eq, h.eq_none_iff]
    rfl
  of_append a b hab := by
    rw [List.dropWhile_append] at hab
    split at hab
    · exact hab
    · have hb := h.of_append _ _ hab
      rw [← List.takeWhile_append_dropWhile (p := set.contains) (l := b)] at hb
      exact h.of_append _ _ hb

/-- To remember the run makes no difference. -/
theorem group_any (h : k.LooksFor P) (index : Nat) (set : CharSet) :
    Rest.LooksFor (fun t ↦ (group index (repeated (one set) 0 none true)).run t k)
      (fun cs ↦ P (cs.dropWhile set.contains)) where
  eq_none_iff t := by
    rw [(h.exhausts _).run_group_any_eq, h.eq_none_iff]
    rfl
  of_append := (h.any set).of_append

end Rest.LooksFor

end Glossopoeia
