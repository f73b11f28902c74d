import Mathlib.Data.List.Lex
import Mathlib.Data.List.Sort
import Glossopoeia.Declension.Combination
import Glossopoeia.Proofs.Outcome

/-!
# Combinations, counted up

The combinations of a list are found by counting up the places of their items.  What the count gives
can be said without it: `choices` goes through a list item by item, and puts all choices with an
item before all those without it (`combinations_succ`).

Choices of places are compared as lists, by the first place in which they differ.  What carries the
count is that one step of it leads from a choice to the very next one (`Places.next_spec`): the
places up to the last one that can move on stay as they are, that one goes on by one, and there is
no smaller way to fill up the rest than to line it up behind.  So along the list of all choices
every step goes one item on (`Places.next_eq_head?`), and the count ends where the list does
(`Places.enumerateFrom_eq`).
-/

set_option autoImplicit false

namespace Glossopoeia

open Outcome

variable {α β : Type}

/-! ## Choices, item by item -/

/-- The ways to choose `size` items: those with the first item come before those without it. -/
def choices : Nat → List α → List (List α)
  | 0, _ => [[]]
  | _ + 1, [] => []
  | size + 1, a :: rest => (choices size rest).map (a :: ·) ++ choices (size + 1) rest

theorem mem_choices_iff {size : Nat} {items choice : List α} :
    choice ∈ choices size items ↔ choice.Sublist items ∧ choice.length = size := by
  induction items generalizing size choice with
  | nil =>
    cases size with
    | zero => simp [choices]
    | succ size => simp +contextual [choices]
  | cons a rest ih =>
    cases size with
    | zero => simp +contextual [choices]
    | succ size =>
      rw [choices, List.mem_append, List.mem_map, List.sublist_cons_iff, or_and_right, or_comm, ih]
      refine or_congr_right ⟨?_, ?_⟩
      · rintro ⟨tail, htail, rfl⟩
        obtain ⟨hsub, hlength⟩ := ih.1 htail
        exact ⟨⟨tail, rfl, hsub⟩, congrArg Nat.succ hlength⟩
      · rintro ⟨⟨tail, rfl, hsub⟩, hlength⟩
        exact ⟨tail, ih.2 ⟨hsub, Nat.succ.inj hlength⟩, rfl⟩

theorem choices_eq_nil_iff {size : Nat} {items : List α} :
    choices size items = [] ↔ items.length < size := by
  rw [List.eq_nil_iff_forall_not_mem]
  constructor
  · refine fun hnone ↦ Nat.not_le.1 fun hle ↦ hnone (items.take size) ?_
    exact mem_choices_iff.2 ⟨List.take_sublist .., List.length_take_of_le hle⟩
  · intro hlt choice hchoice
    obtain ⟨hsub, rfl⟩ := mem_choices_iff.1 hchoice
    exact Nat.not_lt.2 hsub.length_le hlt

/-- The first of the choices takes the first items. -/
theorem exists_choices_eq_cons {size : Nat} {items : List α} (h : size ≤ items.length) :
    ∃ later, choices size items = items.take size :: later := by
  induction items generalizing size with
  | nil =>
    obtain rfl := Nat.le_zero.1 h
    exact ⟨[], rfl⟩
  | cons a rest ih =>
    cases size with
    | zero => exact ⟨[], rfl⟩
    | succ size =>
      obtain ⟨later, hlater⟩ := ih (Nat.le_of_succ_le_succ h)
      rw [choices, hlater, List.map_cons, List.take_succ_cons]
      exact ⟨_, rfl⟩

/-- There are no more choices than subsets. -/
theorem length_choices_le (size : Nat) (items : List α) :
    (choices size items).length ≤ Nat.pow 2 items.length := by
  induction items generalizing size with
  | nil => cases size <;> simp [choices]
  | cons a rest ih =>
    cases size with
    | zero => exact Nat.pow_pos Nat.two_pos
    | succ size =>
      have hwith := ih size
      have hwithout := ih (size + 1)
      have hdouble : Nat.pow 2 (rest.length + 1) = Nat.pow 2 rest.length * 2 := rfl
      rw [choices, List.length_append, List.length_map, List.length_cons, hdouble]
      omega

/-- The choices from ascending numbers are in ascending order themselves. -/
theorem pairwise_choices {items : List Nat} (h : items.Pairwise (· < ·)) (size : Nat) :
    (choices size items).Pairwise (· < ·) := by
  induction items generalizing size with
  | nil => cases size <;> simp [choices]
  | cons a rest ih =>
    obtain ⟨ha, hrest⟩ := List.pairwise_cons.1 h
    cases size with
    | zero => simp [choices]
    | succ size =>
      rw [choices, List.pairwise_append, List.pairwise_map]
      refine ⟨(ih hrest size).imp fun hlt ↦ List.cons_lt_cons_iff.2 (.inr ⟨rfl, hlt⟩),
        ih hrest (size + 1), fun choice hchoice other hother ↦ ?_⟩
      obtain ⟨tail, -, rfl⟩ := List.mem_map.1 hchoice
      obtain ⟨hsub, hlength⟩ := mem_choices_iff.1 hother
      obtain ⟨b, others, rfl⟩ := List.exists_cons_of_length_eq_add_one hlength
      exact List.cons_lt_cons_iff.2 (.inl (ha b (hsub.subset (List.mem_cons_self ..))))

/-- To choose among what stands at some places is to choose among the places. -/
theorem choices_filterMap {f : α → Option β} {items : List α} (h : ∀ a ∈ items, (f a).isSome)
    (size : Nat) : choices size (items.filterMap f) = (choices size items).map (·.filterMap f) := by
  induction items generalizing size with
  | nil => cases size <;> rfl
  | cons a rest ih =>
    obtain ⟨ha, hrest⟩ := List.forall_mem_cons.1 h
    obtain ⟨b, hb⟩ := Option.isSome_iff_exists.1 ha
    cases size with
    | zero => rw [choices, choices, List.map_singleton, List.filterMap_nil]
    | succ size =>
      rw [List.filterMap_cons_some hb, choices, choices, List.map_append, ih hrest, ih hrest,
        List.map_map, List.map_map]
      refine congrArg (· ++ _) (List.map_congr_left fun choice _ ↦ ?_)
      exact (List.filterMap_cons_some hb).symm

theorem filterMap_range_getElem? (items : List α) :
    (List.range items.length).filterMap (items[·]?) = items := by
  induction items with
  | nil => rfl
  | cons a rest ih =>
    rw [List.length_cons, List.range_succ_eq_map,
      List.filterMap_cons_some (f := ((a :: rest)[·]?)) rfl, List.filterMap_map]
    exact congrArg (a :: ·) ih

namespace Places

variable {n size place : Nat} {places front rest other : List Nat}

/-! ## The order of choices -/

/-- `size` places below `n`, in ascending order. -/
structure IsChoice (n size : Nat) (places : List Nat) : Prop where
  /-- How many there are. -/
  length : places.length = size
  /-- Their order. -/
  ascending : places.Pairwise (· < ·)
  /-- Their bound. -/
  below : ∀ place ∈ places, place < n

theorem mem_choices_range_iff : places ∈ choices size (List.range n) ↔ IsChoice n size places := by
  rw [mem_choices_iff]
  constructor
  · rintro ⟨hsub, hlength⟩
    exact ⟨hlength, List.pairwise_lt_range.sublist hsub,
      fun place hplace ↦ List.mem_range.1 (hsub.subset hplace)⟩
  · intro h
    have hsubperm : places.Subperm (List.range n) :=
      List.subperm_of_subset (h.ascending.imp Nat.ne_of_lt)
        fun place hplace ↦ List.mem_range.2 (h.below place hplace)
    exact ⟨List.sublist_of_subperm_of_pairwise hsubperm h.ascending List.pairwise_lt_range,
      h.length⟩

theorem IsChoice.tail (h : IsChoice n (size + 1) (place :: rest)) : IsChoice n size rest where
  length := Nat.succ.inj h.length
  ascending := h.ascending.of_cons
  below := (List.forall_mem_cons.1 h.below).2

/-- The first place leaves room for the others. -/
theorem IsChoice.add_lt (h : IsChoice n (size + 1) (place :: rest)) : place + size < n := by
  induction rest generalizing size place with
  | nil =>
    obtain rfl : 0 = size := Nat.succ.inj h.length
    exact h.below place (List.mem_cons_self ..)
  | cons second rest ih =>
    obtain ⟨less, rfl⟩ : ∃ less, size = less + 1 := ⟨rest.length, (Nat.succ.inj h.length).symm⟩
    have hsecond := ih h.tail
    have hlt := (List.pairwise_cons.1 h.ascending).1 second (List.mem_cons_self ..)
    omega

theorem IsChoice.size_le (h : IsChoice n size places) : size ≤ n := by
  cases places with
  | nil => exact h.length ▸ Nat.zero_le n
  | cons place rest =>
    obtain rfl := h.length
    exact Nat.lt_of_le_of_lt (Nat.le_add_left ..) h.add_lt

theorem cons_le_cons_of {a b : Nat} (h : a < b ∨ a = b ∧ rest ≤ other) :
    a :: rest ≤ b :: other := by
  rcases h with hlt | ⟨rfl, hle⟩
  · exact le_of_lt (List.cons_lt_cons_iff.2 (.inl hlt))
  · exact List.cons_le_cons a hle

/-- Of the choices from `start` on, the least has its places next to each other. -/
theorem range'_le {start : Nat} (h : IsChoice n size places)
    (hstart : ∀ place ∈ places, start ≤ place) : List.range' start size ≤ places := by
  induction places generalizing size start with
  | nil =>
    obtain rfl := h.length
    exact le_refl _
  | cons place rest ih =>
    obtain rfl := h.length
    rw [List.length_cons, List.range'_succ]
    refine cons_le_cons_of ?_
    rcases Nat.lt_or_eq_of_le (hstart place (List.mem_cons_self ..)) with hlt | rfl
    · exact .inl hlt
    · exact .inr ⟨rfl, ih h.tail (List.pairwise_cons.1 h.ascending).1⟩

/-- No place can move on: those behind it fill up all that is left. -/
def IsPacked (n : Nat) : List Nat → Prop
  | [] => True
  | place :: rest => n ≤ place + rest.length + 1 ∧ IsPacked n rest

/-- Packed places are the greatest choice. -/
theorem le_of_isPacked (hpacked : IsPacked n places) (h : IsChoice n places.length other) :
    other ≤ places := by
  induction places generalizing other with
  | nil =>
    rw [List.eq_nil_of_length_eq_zero h.length]
  | cons place rest ih =>
    obtain ⟨first, others, rfl⟩ := List.exists_cons_of_length_eq_add_one h.length
    have hroom := h.add_lt
    have hfull := hpacked.1
    refine cons_le_cons_of ?_
    rcases Nat.lt_or_eq_of_le (show first ≤ place by omega) with hlt | rfl
    · exact .inl hlt
    · exact .inr ⟨rfl, ih hpacked.2 h.tail⟩

/-- If the places behind `place` are packed, nothing lies between a choice and the one in which
`place` has gone on by one and the others are next to it. -/
theorem le_of_lt_of_isPacked (hpacked : IsPacked n rest)
    (h : IsChoice n (front ++ place :: rest).length other) (hlt : front ++ place :: rest < other) :
    front ++ List.range' (place + 1) (rest.length + 1) ≤ other := by
  induction front generalizing other with
  | nil =>
    obtain ⟨first, others, rfl⟩ := List.exists_cons_of_length_eq_add_one h.length
    have hmoved : place < first := by
      rcases List.cons_lt_cons_iff.1 hlt with hmoved | ⟨-, hothers⟩
      · exact hmoved
      · exact absurd hothers (not_lt.2 (le_of_isPacked hpacked h.tail))
    refine range'_le h (List.forall_mem_cons.2 ⟨hmoved, fun later hlater ↦ ?_⟩)
    exact hmoved.trans ((List.pairwise_cons.1 h.ascending).1 later hlater)
  | cons a front ih =>
    obtain ⟨first, others, rfl⟩ := List.exists_cons_of_length_eq_add_one h.length
    rw [List.cons_append]
    refine cons_le_cons_of ?_
    rcases List.cons_lt_cons_iff.1 hlt with hfirst | ⟨rfl, hothers⟩
    · exact .inl hfirst
    · exact .inr ⟨rfl, ih h.tail hothers⟩

/-- Places that are not packed have a last one that can move on. -/
theorem isPacked_or_exists (n : Nat) (places : List Nat) : IsPacked n places ∨
    ∃ front place rest, places = front ++ place :: rest ∧ IsPacked n rest ∧
      place + rest.length + 1 < n := by
  induction places with
  | nil => exact .inl trivial
  | cons first places ih =>
    rcases ih with hpacked | ⟨front, place, rest, rfl, hpacked, hroom⟩
    · rcases Nat.lt_or_ge (first + places.length + 1) n with hroom | hfull
      · exact .inr ⟨[], first, places, rfl, hpacked, hroom⟩
      · exact .inl ⟨hfull, hpacked⟩
    · exact .inr ⟨first :: front, place, rest, rfl, hpacked, hroom⟩

/-! ## One step -/

theorem fetch_append (front : List Nat) (place : Nat) (rest : List Nat) :
    fetch (front ++ place :: rest) front.length = .ok place := by
  simp [fetch]

theorem store_append (front : List Nat) (place : Nat) (rest : List Nat) (new : Nat) :
    store (front ++ place :: rest) front.length new = .ok (front ++ new :: rest) := by
  simp [store]

theorem difference_of_le {a b : Nat} (h : b ≤ a) : difference a b = .ok (a - b) := if_pos h

/-- The search ends at a place that can move on, and otherwise goes on to the one before. -/
theorem lastMovable_append (hsize : size ≤ n) (front : List Nat) (place : Nat) (rest : List Nat) :
    lastMovable n size (front ++ place :: rest) (front.length + 1)
      = if place < n - size + front.length then .ok (some front.length)
        else lastMovable n size (front ++ place :: rest) front.length := by
  rw [lastMovable, fetch_append, difference_of_le hsize]
  simp only [bind, Except.bind, pure, Except.pure]

/-- The search passes over places that are packed. -/
theorem lastMovable_of_isPacked (hpacked : IsPacked n rest) (hsize : size ≤ n)
    (front : List Nat) (hlength : front.length + rest.length = size) :
    lastMovable n size (front ++ rest) size = lastMovable n size (front ++ rest) front.length := by
  induction rest generalizing front with
  | nil =>
    subst hlength
    rfl
  | cons place rest ih =>
    have hfull := hpacked.1
    rw [List.length_cons] at hlength
    have hpassed : (front ++ [place]).length + rest.length = size := by
      rw [List.length_append, List.length_singleton]
      omega
    have hrest := ih hpacked.2 (front ++ [place]) hpassed
    rw [List.append_assoc, List.singleton_append, List.length_append,
      List.length_singleton] at hrest
    rw [hrest, lastMovable_append hsize, if_neg (by omega)]

/-- The places behind `place` line up behind it. -/
theorem lineUp_append (front : List Nat) (place : Nat) (rest : List Nat) :
    lineUp (front.length + 1 + rest.length) (front.length + 1) (front ++ place :: rest)
      = .ok (front ++ List.range' place (rest.length + 1)) := by
  rw [lineUp, Nat.add_sub_cancel_left]
  induction rest generalizing front place with
  | nil => rfl
  | cons old rest ih =>
    -- `place` is in line, so it joins the front and the one behind it takes its part.
    have hstore : store (front ++ place :: old :: rest) (front.length + 1) (place + 1)
        = .ok (front ++ place :: (place + 1) :: rest) := by
      simpa using store_append (front ++ [place]) old rest (place + 1)
    have hrest := ih (front ++ [place]) (place + 1)
    rw [List.length_append, List.length_singleton, List.append_assoc, List.append_assoc,
      List.singleton_append, List.singleton_append] at hrest
    rw [List.length_cons, List.range'_succ, List.foldlM_cons]
    refine bind_eq_ok.2 ⟨_, bind_eq_ok.2 ⟨_, difference_of_le (Nat.le_add_left 1 _), ?_⟩, hrest⟩
    exact bind_eq_ok.2 ⟨_, fetch_append .., hstore⟩

theorem next_of_isPacked (hpacked : IsPacked n places) (hsize : size ≤ n)
    (hlength : places.length = size) : next n size places = .ok none := by
  have hnone : lastMovable n size places size = .ok none :=
    lastMovable_of_isPacked hpacked hsize [] (by rwa [List.length_nil, Nat.zero_add])
  exact bind_eq_ok.2 ⟨none, hnone, rfl⟩

theorem next_append (hpacked : IsPacked n rest) (hroom : place + rest.length + 1 < n)
    (hsize : size ≤ n) (hlength : (front ++ place :: rest).length = size) :
    next n size (front ++ place :: rest)
      = .ok (some (front ++ List.range' (place + 1) (rest.length + 1))) := by
  have hpassed : front.length + 1 + rest.length = size := by
    rw [← hlength, List.length_append, List.length_cons]
    omega
  have hfound := lastMovable_of_isPacked hpacked hsize (front ++ [place])
    (by rwa [List.length_append, List.length_singleton])
  rw [List.append_assoc, List.singleton_append, List.length_append, List.length_singleton,
    lastMovable_append hsize, if_pos (by omega)] at hfound
  have hlined := lineUp_append front (place + 1) rest
  rw [hpassed] at hlined
  refine bind_eq_ok.2 ⟨_, hfound, bind_eq_ok.2 ⟨_, fetch_append .., ?_⟩⟩
  exact bind_eq_ok.2 ⟨_, store_append .., bind_eq_ok.2 ⟨_, hlined, rfl⟩⟩

example : next 5 3 [0, 3, 4] = .ok (some [1, 2, 3]) := rfl

/-- What a step makes of a choice is a choice. -/
theorem IsChoice.moved (h : IsChoice n size (front ++ place :: rest))
    (hroom : place + rest.length + 1 < n) :
    IsChoice n size (front ++ List.range' (place + 1) (rest.length + 1)) where
  length := by simpa using h.length
  ascending := by
    obtain ⟨hfront, -, hbefore⟩ := List.pairwise_append.1 h.ascending
    refine List.pairwise_append.2 ⟨hfront, List.pairwise_lt_range', fun a ha b hb ↦ ?_⟩
    have hlt := hbefore a ha place (List.mem_cons_self ..)
    have hle := (List.mem_range'_1.1 hb).1
    omega
  below := fun p hp ↦ by
    rcases List.mem_append.1 hp with hp | hp
    · exact h.below p (List.mem_append_left _ hp)
    · have hlt := (List.mem_range'_1.1 hp).2
      omega

/-- **A step leads to the very next choice**, if there is any. -/
theorem next_spec (h : IsChoice n size places) :
    (next n size places = .ok none ∧ ∀ other, IsChoice n size other → other ≤ places) ∨
    ∃ later, next n size places = .ok (some later) ∧ IsChoice n size later ∧ places < later ∧
      ∀ other, IsChoice n size other → places < other → later ≤ other := by
  rcases isPacked_or_exists n places with hpacked | ⟨front, place, rest, rfl, hpacked, hroom⟩
  · refine .inl ⟨next_of_isPacked hpacked h.size_le h.length, fun other hother ↦ ?_⟩
    exact le_of_isPacked hpacked (h.length ▸ hother)
  · refine .inr ⟨_, next_append hpacked hroom h.size_le h.length, h.moved hroom, ?_,
      fun other hother hlt ↦ ?_⟩
    · exact List.append_left_lt (List.cons_lt_cons_iff.2 (.inl (Nat.lt_succ_self place)))
    · exact le_of_lt_of_isPacked hpacked (h.length ▸ hother) hlt

/-! ## The whole count -/

theorem pairwise_choices_range (n size : Nat) :
    (choices size (List.range n)).Pairwise (· < ·) :=
  pairwise_choices List.pairwise_lt_range size

/-- Along the list of all choices every step goes one item on. -/
theorem next_eq_head? {before later : List (List Nat)}
    (h : before ++ places :: later = choices size (List.range n)) :
    next n size places = .ok later.head? := by
  have hsorted := pairwise_choices_range n size
  rw [← h, List.pairwise_append, List.pairwise_cons] at hsorted
  obtain ⟨-, ⟨hlater, hsorted⟩, hbefore⟩ := hsorted
  have hmem (other : List Nat) : other ∈ before ++ places :: later ↔ IsChoice n size other := by
    rw [h, mem_choices_range_iff]
  -- What is greater than `places` comes later, so the least of it is the head of `later`.
  have hgreater : ∀ other, IsChoice n size other → places < other → other ∈ later := by
    intro other hother hlt
    rcases List.mem_append.1 ((hmem other).2 hother) with hother | hother
    · exact absurd hlt (lt_asymm (hbefore other hother places (List.mem_cons_self ..)))
    · rcases List.mem_cons.1 hother with rfl | hother
      · exact absurd hlt (lt_irrefl _)
      · exact hother
  rcases next_spec ((hmem places).1 (by simp)) with
    ⟨hnext, hgreatest⟩ | ⟨successor, hnext, hsuccessor, hlt, hleast⟩
  · cases later with
    | nil => exact hnext
    | cons second later =>
      have hle := hgreatest second ((hmem second).1 (by simp))
      exact absurd (hlater second (List.mem_cons_self ..)) (not_lt.2 hle)
  · cases later with
    | nil => exact absurd (hgreater successor hsuccessor hlt) List.not_mem_nil
    | cons second later =>
      have hle := hleast second ((hmem second).1 (by simp)) (hlater second (List.mem_cons_self ..))
      rcases List.mem_cons.1 (hgreater successor hsuccessor hlt) with rfl | hafter
      · exact hnext
      · exact absurd ((List.pairwise_cons.1 hsorted).1 successor hafter) (not_lt.2 hle)

/-- **The count takes one round for each choice that is left**, and ends with all choices found if
those before are found already. -/
theorem enumerateFrom_eq {found : Array (List Nat)} {later : List (List Nat)}
    (h : found.toList ++ places :: later = choices size (List.range n)) (rounds : Nat) :
    enumerateFrom n size rounds found places
      = if later.length < rounds then some (.ok (choices size (List.range n))) else none := by
  induction later generalizing found places rounds with
  | nil =>
    cases rounds with
    | zero => rfl
    | succ rounds =>
      rw [enumerateFrom, next_eq_head? h, ← h, ← Array.toList_push]
      exact (if_pos (Nat.succ_pos rounds)).symm
  | cons second later ih =>
    cases rounds with
    | zero => rfl
    | succ rounds =>
      have hfound : (found.push places).toList ++ second :: later
          = choices size (List.range n) := by
        rw [Array.toList_push, List.append_assoc, List.singleton_append, h]
      rw [enumerateFrom, next_eq_head? h]
      refine (ih hfound rounds).trans ?_
      simp only [List.length_cons, Nat.add_lt_add_iff_right]

theorem enumerate_zero (n rounds : Nat) : enumerate n 0 rounds = some (.ok []) := if_pos (.inl rfl)

/-- **The count gives all choices**, in as many rounds as there are choices. -/
theorem enumerate_succ (n size rounds : Nat) :
    enumerate n (size + 1) rounds
      = if (choices (size + 1) (List.range n)).length ≤ rounds
        then some (.ok (choices (size + 1) (List.range n))) else none := by
  rcases Nat.lt_or_ge n (size + 1) with hlt | hle
  · rw [choices_eq_nil_iff.2 (by rwa [List.length_range]), enumerate, if_pos (.inr hlt)]
    exact (if_pos (Nat.zero_le rounds)).symm
  · have hlength : size + 1 ≤ (List.range n).length := by rwa [List.length_range]
    obtain ⟨later, hall⟩ := exists_choices_eq_cons hlength
    rw [List.take_range, Nat.min_eq_left hle] at hall
    have hstart : (#[] : Array (List Nat)).toList ++ List.range (size + 1) :: later
        = choices (size + 1) (List.range n) := hall.symm
    rw [enumerate, if_neg (by omega), enumerateFrom_eq hstart, hall]
    rfl

/-- **Counting up finds every choice of `size` places below `n`.**  For all `n` and `size` the count
comes to an end, after as many rounds as there are choices, and on the way no index is out of range
and no difference below zero.  It ends with all these choices, each of them once, in lexicographic
order; there are none if `size` is zero or exceeds `n`. -/
theorem enumerate_lexicographic (n size : Nat) :
    ∃ found : List (List Nat),
      (∀ rounds, enumerate n size rounds
        = if found.length ≤ rounds then some (.ok found) else none) ∧
      (∀ places, places ∈ found ↔ 0 < size ∧ IsChoice n size places) ∧
      found.Nodup ∧ found.Pairwise (List.Lex (· < ·)) ∧
      (found = [] ↔ size = 0 ∨ n < size) := by
  cases size with
  | zero => exact ⟨[], enumerate_zero n, by simp⟩
  | succ size =>
    have hsorted := pairwise_choices_range n (size + 1)
    have hnodup : (choices (size + 1) (List.range n)).Nodup :=
      hsorted.imp fun {a b} (hlt : a < b) (heq : a = b) ↦ lt_irrefl b (heq ▸ hlt)
    refine ⟨_, enumerate_succ n size, fun places ↦ ?_, hnodup, hsorted, ?_⟩
    · rw [mem_choices_range_iff]
      exact ⟨fun h ↦ ⟨Nat.succ_pos size, h⟩, And.right⟩
    · rw [choices_eq_nil_iff, List.length_range]
      exact ⟨.inr, fun h ↦ h.resolve_left (Nat.succ_ne_zero size)⟩

end Places

/-! ## Combinations of items -/

/-- **The combinations are the choices**, item by item. -/
theorem combinations_succ (size : Nat) (items : List α) :
    combinations (size + 1) items = choices (size + 1) items := by
  have hplaces : ∀ i ∈ List.range items.length, (items[i]?).isSome := fun i hi ↦ by
    simpa using hi
  have hitems := choices_filterMap hplaces (size + 1)
  rw [filterMap_range_getElem?] at hitems
  have hrounds := length_choices_le (size + 1) (List.range items.length)
  rw [List.length_range] at hrounds
  rw [combinations, Places.enumerate_succ, if_pos hrounds, hitems]

example : combinations 2 [7, 8, 9] = [[7, 8], [7, 9], [8, 9]] := by decide

/-- The combinations are the subsequences but for the empty one. -/
theorem mem_allCombinations_iff {items choice : List α} :
    choice ∈ allCombinations items ↔ choice ≠ [] ∧ choice.Sublist items := by
  have hsize : ∀ n, choice ∈ combinations (n + 1) items
      ↔ choice.Sublist items ∧ choice.length = n + 1 := fun n ↦ by
    rw [combinations_succ, mem_choices_iff]
  simp only [allCombinations, List.mem_flatMap, List.mem_range, hsize]
  constructor
  · rintro ⟨n, _, hsub, hlength⟩
    exact ⟨List.ne_nil_of_length_eq_add_one hlength, hsub⟩
  · rintro ⟨hne, hsub⟩
    have hpos := List.length_pos_iff.2 hne
    have hle := hsub.length_le
    exact ⟨choice.length - 1, by omega, hsub, by omega⟩

end Glossopoeia
