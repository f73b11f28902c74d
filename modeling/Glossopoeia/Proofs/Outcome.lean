import Mathlib.Data.List.Forall2
import Glossopoeia.Error

/-!
# Steps that may fail

Most of the library is written as steps that each may fail, one after the other.  These lemmas open
such a program at a result: it succeeds if all of its steps do, with what the last one gives.
-/

set_option autoImplicit false

namespace Glossopoeia.Outcome

variable {ε α β : Type}

theorem bind_eq_ok {x : Except ε α} {f : α → Except ε β} {b : β} :
    x >>= f = .ok b ↔ ∃ a, x = .ok a ∧ f a = .ok b := by
  cases x with
  | error e => exact ⟨fun h ↦ (nomatch h), fun ⟨_, h, _⟩ ↦ nomatch h⟩
  | ok a => exact ⟨fun h ↦ ⟨a, rfl, h⟩, fun ⟨_, ha, h⟩ ↦ by cases ha; exact h⟩

theorem map_eq_ok {x : Except ε α} {f : α → β} {b : β} :
    x.map f = .ok b ↔ ∃ a, x = .ok a ∧ f a = b := by
  cases x with
  | error e => exact ⟨fun h ↦ (nomatch h), fun ⟨_, h, _⟩ ↦ nomatch h⟩
  | ok a => exact ⟨fun h ↦ ⟨a, rfl, by cases h; rfl⟩, fun ⟨_, ha, h⟩ ↦ by cases ha; cases h; rfl⟩

theorem pure_eq_ok {a b : α} : (pure a : Except ε α) = .ok b ↔ a = b :=
  ⟨fun h ↦ by cases h; rfl, fun h ↦ h ▸ rfl⟩

theorem exists_eq_ok_of_isOk {x : Except ε α} (h : x.isOk = true) : ∃ a, x = .ok a := by
  cases x with
  | error e => exact absurd h Bool.false_ne_true
  | ok a => exact ⟨a, rfl⟩

/-- A list is mapped by what succeeds on every item. -/
theorem exists_mapM_eq_ok_of_forall {f : α → Except ε β} {list : List α}
    (h : ∀ a ∈ list, ∃ b, f a = .ok b) : ∃ bs, list.mapM f = .ok bs := by
  induction list with
  | nil => exact ⟨[], rfl⟩
  | cons a list ih =>
    obtain ⟨⟨b, hb⟩, hlist⟩ := List.forall_mem_cons.1 h
    obtain ⟨bs, hbs⟩ := ih hlist
    refine ⟨b :: bs, ?_⟩
    rw [List.mapM_cons, hb, hbs]
    rfl

/-- Related items of two lists go to related results. -/
theorem forall₂_of_mapM {α' β' : Type} {R : α → α' → Prop} {S : β → β' → Prop}
    {f : α → Except ε β} {g : α' → Except ε β'} {list : List α} {list' : List α'}
    (hlist : List.Forall₂ R list list')
    (hfg : ∀ a a' b b', R a a' → f a = .ok b → g a' = .ok b' → S b b') {bs : List β}
    {bs' : List β'} (h : list.mapM f = .ok bs) (h' : list'.mapM g = .ok bs') :
    List.Forall₂ S bs bs' := by
  induction hlist generalizing bs bs' with
  | nil =>
    rw [List.mapM_nil, pure_eq_ok] at h h'
    subst h h'
    exact .nil
  | cons hhead _ ih =>
    rw [List.mapM_cons, bind_eq_ok] at h h'
    obtain ⟨b, hb, h⟩ := h
    obtain ⟨b', hb', h'⟩ := h'
    obtain ⟨rest, hrest, h⟩ := bind_eq_ok.1 h
    obtain ⟨rest', hrest', h'⟩ := bind_eq_ok.1 h'
    rw [← pure_eq_ok.1 h, ← pure_eq_ok.1 h']
    exact .cons (hfg _ _ b b' hhead hb hb') (ih hrest hrest')

/-- If `f` succeeds on every item, with what `g` gives, the list is mapped by `g`. -/
theorem mapM_eq_ok_map {f : α → Except ε β} {g : α → β} {list : List α}
    (h : ∀ a ∈ list, f a = .ok (g a)) : list.mapM f = .ok (list.map g) := by
  induction list with
  | nil => rfl
  | cons a list ih =>
    obtain ⟨ha, hlist⟩ := List.forall_mem_cons.1 h
    rw [List.mapM_cons, ha, ih hlist]
    rfl

/-- A mapped list pairs up with what it is mapped to. -/
theorem exists_pairs_of_mapM {f : α → Except ε β} {list : List α} {bs : List β}
    (h : list.mapM f = .ok bs) : ∃ pairs : List (α × β),
      pairs.map Prod.fst = list ∧ pairs.map Prod.snd = bs ∧ ∀ p ∈ pairs, f p.1 = .ok p.2 := by
  induction list generalizing bs with
  | nil =>
    rw [List.mapM_nil, pure_eq_ok] at h
    exact ⟨[], rfl, h, fun _ hp ↦ absurd hp List.not_mem_nil⟩
  | cons a list ih =>
    rw [List.mapM_cons, bind_eq_ok] at h
    obtain ⟨b, hb, h⟩ := h
    obtain ⟨rest, hrest, h⟩ := bind_eq_ok.1 h
    obtain ⟨pairs, rfl, rfl, hpairs⟩ := ih hrest
    exact ⟨(a, b) :: pairs, rfl, pure_eq_ok.1 h, List.forall_mem_cons.2 ⟨hb, hpairs⟩⟩

/-- What a list is mapped to comes from its items. -/
theorem exists_of_mem_mapM {f : α → Except ε β} {list : List α} {bs : List β}
    (h : list.mapM f = .ok bs) : ∀ b ∈ bs, ∃ a ∈ list, f a = .ok b := by
  obtain ⟨pairs, rfl, rfl, hpairs⟩ := exists_pairs_of_mapM h
  intro b hb
  obtain ⟨p, hp, rfl⟩ := List.mem_map.1 hb
  exact ⟨p.1, List.mem_map_of_mem hp, hpairs p hp⟩

/-- And each item goes to something there. -/
theorem exists_mem_of_mapM {f : α → Except ε β} {list : List α} {bs : List β}
    (h : list.mapM f = .ok bs) : ∀ a ∈ list, ∃ b ∈ bs, f a = .ok b := by
  obtain ⟨pairs, rfl, rfl, hpairs⟩ := exists_pairs_of_mapM h
  intro a ha
  obtain ⟨p, hp, rfl⟩ := List.mem_map.1 ha
  exact ⟨p.2, List.mem_map_of_mem hp, hpairs p hp⟩

/-- If `g` succeeds wherever `f` does, it succeeds on every list on which `f` does. -/
theorem exists_mapM_eq_ok {f g : α → Except ε β} {list : List α}
    (hfg : ∀ a ∈ list, ∀ b, f a = .ok b → ∃ b', g a = .ok b') {bs : List β}
    (h : list.mapM f = .ok bs) : ∃ bs', list.mapM g = .ok bs' := by
  refine exists_mapM_eq_ok_of_forall fun a ha ↦ ?_
  obtain ⟨b, -, hb⟩ := exists_mem_of_mapM h a ha
  exact hfg a ha b hb

/-- What every step of a walk keeps, the walk keeps. -/
theorem foldlM_keeps {P : β → Prop} {f : β → α → Except ε β}
    (hstep : ∀ b a b', P b → f b a = .ok b' → P b') {list : List α} {b b' : β} (hb : P b)
    (h : list.foldlM f b = .ok b') : P b' := by
  induction list generalizing b with
  | nil =>
    rw [List.foldlM_nil, pure_eq_ok] at h
    exact h ▸ hb
  | cons a list ih =>
    rw [List.foldlM_cons, bind_eq_ok] at h
    obtain ⟨next, hnext, h⟩ := h
    exact ih (hstep b a next hb hnext) h

/-! ## Programs that go alike -/

/-- Either both programs fail, with the same error, or both succeed, with results that are
related. -/
inductive Alike (R : α → β → Prop) : Except ε α → Except ε β → Prop
  | ok {a : α} {b : β} (h : R a b) : Alike R (.ok a) (.ok b)
  | error (e : ε) : Alike R (.error e) (.error e)

namespace Alike

variable {γ δ : Type} {R : α → β → Prop} {S : γ → δ → Prop}

theorem refl (x : Except ε α) : Alike Eq x x := by
  cases x with
  | error e => exact .error e
  | ok a => exact .ok rfl

theorem bind {x : Except ε α} {y : Except ε β} {f : α → Except ε γ} {g : β → Except ε δ}
    (h : Alike R x y) (hfg : ∀ a b, R a b → Alike S (f a) (g b)) :
    Alike S (x >>= f) (y >>= g) := by
  cases h with
  | ok h => exact hfg _ _ h
  | error e => exact .error e

/-- Walks over the same list go alike if their steps do. -/
theorem foldlM {f : α → γ → Except ε α} {g : β → γ → Except ε β}
    (hstep : ∀ a b c, R a b → Alike R (f a c) (g b c)) (list : List γ) {a : α} {b : β}
    (h : R a b) : Alike R (list.foldlM f a) (list.foldlM g b) := by
  induction list generalizing a b with
  | nil => exact .ok h
  | cons c rest ih =>
    rw [List.foldlM_cons, List.foldlM_cons]
    exact (hstep a b c h).bind fun _ _ ↦ ih

end Alike

/-- Either both programs fail, whatever their errors are, or both succeed, with results that are
related. -/
inductive Together (R : α → β → Prop) : Except ε α → Except ε β → Prop
  | ok {a : α} {b : β} (h : R a b) : Together R (.ok a) (.ok b)
  | error (e e' : ε) : Together R (.error e) (.error e')

namespace Together

variable {γ δ : Type} {R : α → β → Prop} {S : γ → δ → Prop}

theorem refl {Q : α → α → Prop} {x : Except ε α} (h : ∀ a, x = .ok a → Q a a) : Together Q x x := by
  cases x with
  | error e => exact .error e e
  | ok a => exact .ok (h a rfl)

theorem bind {x : Except ε α} {y : Except ε β} {f : α → Except ε γ} {g : β → Except ε δ}
    (h : Together R x y) (hfg : ∀ a b, R a b → Together S (f a) (g b)) :
    Together S (x >>= f) (y >>= g) := by
  cases h with
  | ok h => exact hfg _ _ h
  | error e e' => exact .error e e'

theorem imp_of_ok {Q : α → β → Prop} {x : Except ε α} {y : Except ε β} (h : Together R x y)
    (himp : ∀ a b, x = .ok a → y = .ok b → R a b → Q a b) : Together Q x y := by
  cases h with
  | ok h => exact .ok (himp _ _ rfl rfl h)
  | error e e' => exact .error e e'

/-- Walks over related lists go together if their steps do. -/
theorem foldlM {f : α → γ → Except ε α} {g : β → δ → Except ε β}
    (hstep : ∀ a b c d, R a b → S c d → Together R (f a c) (g b d)) {list : List γ}
    {list' : List δ} (hlist : List.Forall₂ S list list') {a : α} {b : β} (h : R a b) :
    Together R (list.foldlM f a) (list'.foldlM g b) := by
  induction hlist generalizing a b with
  | nil => exact .ok h
  | cons hhead _ ih =>
    rw [List.foldlM_cons, List.foldlM_cons]
    exact (hstep a b _ _ h hhead).bind fun _ _ ↦ ih

end Together

end Glossopoeia.Outcome
