import Glossopoeia.Affix.CellForm
import Glossopoeia.Proofs.Text.Cuts

/-!
# The pieces of written affixes

What each reader of `CellForm` takes from a text, as an equation on the text: the condition and the
`ELSE` with the blanks around them, a stem in front of its hyphen and a stem behind it.  The first
stem of two is the longest run that leaves something to be read behind it
(`longestRun_eq_some_iff`), so a text with two readings of that kind has them in front of one
another.
-/

set_option autoImplicit false

namespace Glossopoeia

open Text

namespace CellForm

variable {cs rest stem : List Char}

/-! ## Runs -/

theorem isRun_iff : isRun cs ↔ cs ≠ [] ∧ Solid cs := by
  simp [isRun, Solid, isSolid]

theorem solid_of_isRun (h : isRun cs) : Solid cs := (isRun_iff.1 h).2

theorem solid_takeWhile (cs : List Char) : Solid (cs.takeWhile isSolid) := by
  intro c hc
  simpa [isSolid] using List.mem_takeWhile_imp hc

theorem isRunAndBlanks_iff :
    isRunAndBlanks cs ↔ ∃ run gap, cs = run ++ gap ∧ isRun run ∧ allBlank gap := by
  rw [isRunAndBlanks, Bool.and_eq_true]
  constructor
  · exact fun h ↦ ⟨_, _, List.takeWhile_append_dropWhile.symm, h⟩
  · rintro ⟨run, gap, rfl, hrun, hgap⟩
    have hsolid : ∀ c ∈ run, isSolid c = true := fun c hc ↦ by
      simp [isSolid, solid_of_isRun hrun c hc]
    have htake : gap.takeWhile isSolid = [] := by
      cases gap with
      | nil => rfl
      | cons c gap =>
        have hc := allBlank_iff.1 hgap c (List.mem_cons_self ..)
        exact List.takeWhile_cons_of_neg (by simp [isSolid, hc])
    have hdrop := List.takeWhile_append_dropWhile (p := isSolid) (l := gap)
    rw [htake, List.nil_append] at hdrop
    rw [List.takeWhile_append_of_pos hsolid, List.dropWhile_append_of_pos hsolid, htake, hdrop,
      List.append_nil]
    exact ⟨hrun, hgap⟩

theorem isRunAndBlanks_of_isRun (h : isRun cs) : isRunAndBlanks cs :=
  isRunAndBlanks_iff.2 ⟨cs, [], (List.append_nil cs).symm, h, rfl⟩

/-! ## Words and hyphens -/

theorem keyword_eq_some_iff {start : String} :
    keyword start cs = some rest ↔
      ∃ gap, allBlank gap ∧ cs = start.toList ++ gap ++ rest ∧ trimLeft rest = rest := by
  simp only [keyword, Option.map_eq_some_iff, stripStart_eq_some_iff]
  constructor
  · rintro ⟨_, rfl, htrim⟩
    obtain ⟨gap, hgap, rfl, hrest⟩ := trimLeft_eq_iff.1 htrim
    exact ⟨gap, hgap, (List.append_assoc ..).symm, hrest⟩
  · rintro ⟨gap, hgap, rfl, hrest⟩
    exact ⟨gap ++ rest, List.append_assoc .., trimLeft_eq_iff.2 ⟨gap, hgap, rfl, hrest⟩⟩

/-- A word that begins with a letter is found behind blanks. -/
theorem keyword_trimLeft_eq_some_iff {start : String} {c : Char} {letters : List Char}
    (hstart : start.toList = c :: letters) (hc : isBlank c = false) :
    keyword start (trimLeft cs) = some rest ↔ ∃ gap gap', allBlank gap ∧ allBlank gap' ∧
      cs = gap ++ start.toList ++ gap' ++ rest ∧ trimLeft rest = rest := by
  have hleft (more : List Char) : trimLeft (start.toList ++ more) = start.toList ++ more := by
    rw [hstart]
    exact trimLeft_cons hc _
  rw [keyword_eq_some_iff]
  constructor
  · rintro ⟨gap', hgap', heq, hrest⟩
    obtain ⟨gap, hgap, rfl, -⟩ := trimLeft_eq_iff.1 heq
    exact ⟨gap, gap', hgap, hgap', by simp only [List.append_assoc], hrest⟩
  · rintro ⟨gap, gap', hgap, hgap', rfl, hrest⟩
    refine ⟨gap', hgap', ?_, hrest⟩
    simp only [List.append_assoc]
    rw [trimLeft_append hgap, hleft]

theorem afterElse_eq_some_iff :
    afterElse cs = some rest ↔ ∃ gap gap', allBlank gap ∧ allBlank gap' ∧
      cs = gap ++ "ELSE".toList ++ gap' ++ rest ∧ trimLeft rest = rest :=
  keyword_trimLeft_eq_some_iff (c := 'E') rfl (by decide)

theorem afterHyphen_eq_some_iff : afterHyphen cs = some rest ↔ cs = '-' :: rest := by
  cases cs with
  | nil => simp [afterHyphen]
  | cons c cs =>
    rw [List.cons.injEq]
    by_cases hc : c = '-'
    · subst hc
      simp [afterHyphen]
    · simp [afterHyphen, hc]

theorem beforeHyphen_eq_some_iff :
    beforeHyphen cs = some stem ↔ ∃ gap, allBlank gap ∧ cs = stem ++ '-' :: gap := by
  have hright : beforeHyphen cs = some stem ↔ trimRight cs = stem ++ ['-'] := by
    rw [← List.reverse_inj, List.reverse_concat, beforeHyphen]
    split
    · next rest heq => rw [heq, List.cons.injEq, Option.some_inj, List.reverse_eq_iff]; simp
    · next hne => exact iff_of_false nofun (hne _)
  rw [hright, trimRight_eq_iff]
  constructor
  · rintro ⟨gap, hgap, rfl, -⟩
    exact ⟨gap, hgap, List.append_assoc ..⟩
  · rintro ⟨gap, hgap, rfl⟩
    exact ⟨gap, hgap, List.append_cons .., trimRight_append_cons stem [] (by decide)⟩

theorem closing_eq_some_iff {p : List Char → Bool} :
    closing p cs = some stem ↔ (∃ gap, allBlank gap ∧ cs = stem ++ '-' :: gap) ∧ p stem := by
  rw [closing, Option.bind_eq_some_iff, ← beforeHyphen_eq_some_iff]
  constructor
  · rintro ⟨stem', hstem, h⟩
    split at h
    · next hp =>
      cases h
      exact ⟨hstem, hp⟩
    · cases h
  · rintro ⟨hstem, hp⟩
    exact ⟨stem, hstem, if_pos hp⟩

theorem opening_eq_some_iff {inner : Bool} :
    opening inner cs = some stem ↔ ∃ gap, allBlank gap ∧ cs = '-' :: (stem ++ gap) ∧
      trimRight stem = stem ∧ isRun (if inner then trimLeft stem else stem) := by
  simp only [opening, Option.bind_eq_some_iff, afterHyphen_eq_some_iff,
    Option.ite_none_right_eq_some, Option.some_inj]
  constructor
  · rintro ⟨rest, rfl, hrun, heq⟩
    obtain ⟨gap, hgap, rfl, hstem⟩ := trimRight_eq_iff.1 heq
    exact ⟨gap, hgap, rfl, hstem, heq ▸ hrun⟩
  · rintro ⟨gap, hgap, rfl, hstem, hrun⟩
    have heq : trimRight (stem ++ gap) = stem := by rw [trimRight_append hgap, hstem]
    exact ⟨_, rfl, heq.symm ▸ hrun, heq⟩

/-- A stem behind a hyphen with no blanks between them. -/
theorem opening_false_eq_some_iff :
    opening false cs = some stem ↔
      ∃ gap, allBlank gap ∧ cs = '-' :: (stem ++ gap) ∧ isRun stem := by
  rw [opening_eq_some_iff]
  constructor
  · rintro ⟨gap, hgap, hcs, -, hrun⟩
    exact ⟨gap, hgap, hcs, hrun⟩
  · rintro ⟨gap, hgap, hcs, hrun⟩
    exact ⟨gap, hgap, hcs, (solid_of_isRun hrun).trimRight_eq, hrun⟩

/-! ## Conditions -/

/-- How the condition of a conditional affix is written, with any blanks between its words. -/
def IsCondition (boundary : Boundary) (head : List Char) : Prop :=
  ∃ g₁ g₂ g₃ g₄, (allBlank g₁ ∧ allBlank g₂ ∧ allBlank g₃ ∧ allBlank g₄) ∧
    head = g₁ ++ "IF".toList ++ g₂ ++ boundary.mark ++ g₃ ++ "THEN".toList ++ g₄

/-- No two questions are written alike. -/
theorem findSome?_mark_eq_some_iff {boundary : Boundary} :
    (Boundary.all.findSome? fun b ↦ (stripStart b.mark cs).map fun rest ↦ (b, trimLeft rest))
      = some (boundary, rest) ↔ ∃ after, cs = boundary.mark ++ after ∧ trimLeft after = rest := by
  constructor
  · intro h
    obtain ⟨b, _, h⟩ := List.exists_of_findSome?_eq_some h
    obtain ⟨after, hstrip, heq⟩ := Option.map_eq_some_iff.1 h
    cases heq
    exact ⟨after, stripStart_eq_some_iff.1 hstrip, rfl⟩
  · rintro ⟨after, rfl, rfl⟩
    cases boundary <;> simp [Boundary.all, Boundary.mark, stripStart]

theorem readCondition_eq_some_iff {boundary : Boundary} :
    readCondition cs = some (boundary, rest) ↔
      ∃ head, IsCondition boundary head ∧ cs = head ++ rest ∧ trimLeft rest = rest := by
  have hread : readCondition cs = some (boundary, rest) ↔ ∃ afterIf afterMark,
      keyword "IF" (trimLeft cs) = some afterIf ∧ afterIf = boundary.mark ++ afterMark ∧
        keyword "THEN" (trimLeft afterMark) = some rest := by
    simp only [readCondition, bind, Option.bind_eq_some_iff]
    constructor
    · rintro ⟨afterIf, hif, ⟨b, trimmed⟩, hmark, afterThen, hthen, heq⟩
      cases heq
      obtain ⟨afterMark, hafterIf, rfl⟩ := findSome?_mark_eq_some_iff.1 hmark
      exact ⟨afterIf, afterMark, hif, hafterIf, hthen⟩
    · rintro ⟨afterIf, afterMark, hif, hafterIf, hthen⟩
      exact ⟨afterIf, hif, _, findSome?_mark_eq_some_iff.2 ⟨afterMark, hafterIf, rfl⟩, rest, hthen,
        rfl⟩
  rw [hread]
  simp only [keyword_trimLeft_eq_some_iff (show "IF".toList = 'I' :: ['F'] from rfl) (by decide),
    keyword_trimLeft_eq_some_iff (show "THEN".toList = 'T' :: ['H', 'E', 'N'] from rfl) (by decide)]
  constructor
  · rintro ⟨_, _, ⟨g₁, g₂, h₁, h₂, rfl, -⟩, rfl, g₃, g₄, h₃, h₄, rfl, hrest⟩
    exact ⟨_, ⟨g₁, g₂, g₃, g₄, ⟨h₁, h₂, h₃, h₄⟩, rfl⟩, by simp only [List.append_assoc], hrest⟩
  · rintro ⟨_, ⟨g₁, g₂, g₃, g₄, ⟨h₁, h₂, h₃, h₄⟩, rfl⟩, rfl, hrest⟩
    refine ⟨_, g₃ ++ "THEN".toList ++ g₄ ++ rest, ⟨g₁, g₂, h₁, h₂, ?_, ?_⟩, rfl, g₃, g₄, h₃, h₄,
      rfl, hrest⟩
    · simp only [List.append_assoc]
    · obtain ⟨c, more, hmark, hc⟩ : ∃ c more, boundary.mark = c :: more ∧ isBlank c = false := by
        cases boundary <;> exact ⟨_, _, rfl, by decide⟩
      rw [hmark]
      exact trimLeft_cons hc _

/-! ## The longest run -/

variable {α : Type} {k : List Char → Option α} {taken run whole : List Char} {a : α}

theorem longestRun_taken_eq_none_iff : longestRun k taken cs = none ↔
    ∀ run rest, cs = run ++ rest → Solid run → taken ≠ [] ∨ run ≠ [] → k rest = none := by
  induction cs generalizing taken with
  | nil =>
    rw [longestRun]
    constructor
    · intro h run rest heq _ hne
      obtain ⟨rfl, rfl⟩ := List.append_eq_nil_iff.1 heq.symm
      simpa [hne.resolve_right (· rfl)] using h
    · intro h
      split
      · rfl
      · next hne => rw [h [] [] rfl solid_nil (.inl (by simpa using hne)), Option.map_none]
  | cons c cs ih =>
    rw [longestRun, Option.or_eq_none_iff]
    constructor
    · rintro ⟨hlonger, hhere⟩ run rest heq hsolid hne
      cases run with
      | nil =>
        rw [List.nil_append] at heq
        simpa [hne.resolve_right (· rfl), heq] using hhere
      | cons d run =>
        obtain ⟨rfl, rfl⟩ := List.cons.inj heq
        obtain ⟨hc, hsolid⟩ := List.forall_mem_cons.1 hsolid
        rw [if_neg (by simp [hc])] at hlonger
        exact ih.1 hlonger run rest rfl hsolid (.inl (List.cons_ne_nil _ _))
    · intro h
      constructor
      · split
        · rfl
        · next hc =>
          refine ih.2 fun run rest heq hsolid _ ↦ h (c :: run) rest (heq ▸ rfl) ?_ ?_
          · exact List.forall_mem_cons.2 ⟨by simpa using hc, hsolid⟩
          · exact .inr (List.cons_ne_nil _ _)
      · split
        · rfl
        · next hne => rw [h [] _ rfl solid_nil (.inl (by simpa using hne)), Option.map_none]

/-- No longer run than the one that ends here would do. -/
def IsLast (k : List Char → Option α) (rest : List Char) : Prop :=
  ∀ more rest', rest = more ++ rest' → more ≠ [] → Solid more → k rest' = none

theorem isLast_nil : IsLast k [] :=
  fun _ _ heq hmore ↦ absurd (List.append_eq_nil_iff.1 heq.symm).1 hmore

theorem isLast_cons_iff (taken : List Char) {c : Char} : IsLast k (c :: cs) ↔
    isBlank c = true ∨ longestRun k (c :: taken) cs = none := by
  rw [longestRun_taken_eq_none_iff]
  constructor
  · intro h
    cases hc : isBlank c with
    | true => exact .inl rfl
    | false =>
      refine .inr fun run rest heq hsolid _ ↦ h (c :: run) rest (heq ▸ rfl) nofun ?_
      exact List.forall_mem_cons.2 ⟨hc, hsolid⟩
  · rintro h (_ | ⟨d, more⟩) rest' heq hmore hsolid
    · exact absurd rfl hmore
    · obtain ⟨rfl, rfl⟩ := List.cons.inj heq
      obtain ⟨hc, hsolid⟩ := List.forall_mem_cons.1 hsolid
      have hnone := h.resolve_left (by simp [hc])
      exact hnone more rest' rfl hsolid (.inl (List.cons_ne_nil _ _))

theorem longestRun_of_isLast (h : IsLast k cs) :
    longestRun k taken cs = if taken.isEmpty then none else (k cs).map (taken.reverse, ·) := by
  cases cs with
  | nil => rfl
  | cons c cs =>
    have hlonger : (if isBlank c then none else longestRun k (c :: taken) cs) = none := by
      split
      · rfl
      · next hc => exact ((isLast_cons_iff taken).1 h).resolve_left hc
    rw [longestRun, hlonger, Option.none_or]

/-- The run is read up to where it is the last. -/
theorem longestRun_append (hrun : Solid run) (hlast : IsLast k rest) (hk : k rest = some a)
    (hne : taken ≠ [] ∨ run ≠ []) :
    longestRun k taken (run ++ rest) = some (taken.reverse ++ run, a) := by
  induction run generalizing taken with
  | nil =>
    have htaken : taken ≠ [] := hne.resolve_right (· rfl)
    rw [List.nil_append, List.append_nil, longestRun_of_isLast hlast, hk]
    simp [htaken]
  | cons c run ih =>
    obtain ⟨hc, hrun⟩ := List.forall_mem_cons.1 hrun
    rw [List.cons_append, longestRun, if_neg (by simp [hc]),
      ih hrun (.inl (List.cons_ne_nil _ _)), Option.some_or]
    simp

theorem of_longestRun_eq_some_of_isLast (hlast : IsLast k cs)
    (h : longestRun k taken cs = some (whole, a)) :
    whole = taken.reverse ∧ whole ≠ [] ∧ k cs = some a := by
  rw [longestRun_of_isLast hlast] at h
  split at h
  · cases h
  · next hne =>
    obtain ⟨_, hk, heq⟩ := Option.map_eq_some_iff.1 h
    cases heq
    exact ⟨rfl, by simpa using hne, hk⟩

theorem exists_of_longestRun_eq_some (h : longestRun k taken cs = some (whole, a)) :
    ∃ run rest, cs = run ++ rest ∧ Solid run ∧ whole = taken.reverse ++ run ∧ whole ≠ [] ∧
      k rest = some a ∧ IsLast k rest := by
  have hhere {cs taken : List Char} (hlast : IsLast k cs)
      (h : longestRun k taken cs = some (whole, a)) :
      ∃ run rest, cs = run ++ rest ∧ Solid run ∧ whole = taken.reverse ++ run ∧ whole ≠ [] ∧
        k rest = some a ∧ IsLast k rest := by
    obtain ⟨rfl, hne, hk⟩ := of_longestRun_eq_some_of_isLast hlast h
    exact ⟨[], cs, rfl, solid_nil, (List.append_nil _).symm, hne, hk, hlast⟩
  induction cs generalizing taken with
  | nil => exact hhere isLast_nil h
  | cons c cs ih =>
    have hread := h
    rw [longestRun] at h
    rcases Option.or_eq_some_iff.1 h with h | ⟨hlonger, -⟩
    · split at h
      · cases h
      · next hc =>
        obtain ⟨run, rest, rfl, hsolid, rfl, hk⟩ := ih h
        refine ⟨c :: run, rest, rfl, ?_, by simp, hk⟩
        exact List.forall_mem_cons.2 ⟨by simpa using hc, hsolid⟩
    · refine hhere ((isLast_cons_iff taken).2 ?_) hread
      split at hlonger
      · next hc => exact .inl hc
      · exact .inr hlonger

theorem longestRun_eq_none_iff : longestRun k [] cs = none ↔
    ∀ run rest, cs = run ++ rest → isRun run → k rest = none := by
  rw [longestRun_taken_eq_none_iff]
  constructor
  · exact fun h run rest hcs hrun ↦
      h run rest hcs (solid_of_isRun hrun) (.inr (isRun_iff.1 hrun).1)
  · exact fun h run rest hcs hsolid hne ↦
      h run rest hcs (isRun_iff.2 ⟨hne.resolve_left (· rfl), hsolid⟩)

/-- **The longest run**: a run that can be read on behind, and not behind any longer one. -/
theorem longestRun_eq_some_iff : longestRun k [] cs = some (run, a) ↔
    ∃ rest, cs = run ++ rest ∧ isRun run ∧ k rest = some a ∧ IsLast k rest := by
  constructor
  · intro h
    obtain ⟨run, rest, hcs, hsolid, rfl, hne, hk⟩ := exists_of_longestRun_eq_some h
    exact ⟨rest, hcs, isRun_iff.2 ⟨hne, hsolid⟩, hk⟩
  · rintro ⟨rest, rfl, hrun, hk, hlast⟩
    obtain ⟨hne, hsolid⟩ := isRun_iff.1 hrun
    exact longestRun_append hsolid hlast hk (.inr hne)

/-! ## Branches -/

variable {p : List Char → Bool} {inner : Bool} {b : List Char} {first : List Char}

/-- What follows the first stem of `a- ELSE b-`: the second stem. -/
def secondFront (p : List Char → Bool) (rest : List Char) : Option (List Char) :=
  ((afterHyphen rest).bind afterElse).bind (closing p)

theorem secondFront_eq_some_iff : secondFront p rest = some b ↔ ∃ g₁ g₂ g₃,
    (allBlank g₁ ∧ allBlank g₂ ∧ allBlank g₃) ∧
      rest = '-' :: (g₁ ++ "ELSE".toList ++ g₂ ++ (b ++ '-' :: g₃)) ∧
      trimLeft (b ++ '-' :: g₃) = b ++ '-' :: g₃ ∧ p b := by
  simp only [secondFront, Option.bind_eq_some_iff, afterHyphen_eq_some_iff, afterElse_eq_some_iff,
    closing_eq_some_iff]
  constructor
  · rintro ⟨_, ⟨_, rfl, g₁, g₂, h₁, h₂, rfl, htrim⟩, ⟨g₃, h₃, rfl⟩, hp⟩
    exact ⟨g₁, g₂, g₃, ⟨h₁, h₂, h₃⟩, rfl, htrim, hp⟩
  · rintro ⟨g₁, g₂, g₃, ⟨h₁, h₂, h₃⟩, rfl, htrim, hp⟩
    exact ⟨_, ⟨_, rfl, g₁, g₂, h₁, h₂, rfl, htrim⟩, ⟨g₃, h₃, rfl⟩, hp⟩

theorem frontBranches_eq_some_iff : frontBranches p cs = some (first, b) ↔
    ∃ rest, cs = first ++ rest ∧ isRun first ∧ secondFront p rest = some b ∧
      IsLast (secondFront p) rest :=
  longestRun_eq_some_iff

theorem frontBranches_eq_none_iff : frontBranches p cs = none ↔
    ∀ run rest, cs = run ++ rest → isRun run → secondFront p rest = none :=
  longestRun_eq_none_iff

/-- What follows the first stem of `-a ELSE -b`: the second stem. -/
def secondBack (inner : Bool) (rest : List Char) : Option (List Char) :=
  (afterElse rest).bind (opening inner)

theorem secondBack_eq_some_iff : secondBack inner rest = some b ↔ ∃ g₁ g₂ g₃,
    (allBlank g₁ ∧ allBlank g₂ ∧ allBlank g₃) ∧
      rest = g₁ ++ "ELSE".toList ++ g₂ ++ '-' :: (b ++ g₃) ∧
      trimRight b = b ∧ isRun (if inner then trimLeft b else b) := by
  simp only [secondBack, Option.bind_eq_some_iff, afterElse_eq_some_iff, opening_eq_some_iff]
  constructor
  · rintro ⟨_, ⟨g₁, g₂, h₁, h₂, rfl, -⟩, g₃, h₃, rfl, hb⟩
    exact ⟨g₁, g₂, g₃, ⟨h₁, h₂, h₃⟩, rfl, hb⟩
  · rintro ⟨g₁, g₂, g₃, ⟨h₁, h₂, h₃⟩, rfl, hb⟩
    exact ⟨_, ⟨g₁, g₂, h₁, h₂, rfl, trimLeft_cons (by decide) _⟩, g₃, h₃, rfl, hb⟩

theorem backBranches_eq_some_iff : backBranches inner cs = some (first, b) ↔
    ∃ rest, cs = '-' :: (first ++ rest) ∧ isRun first ∧ secondBack inner rest = some b ∧
      IsLast (secondBack inner) rest := by
  have hread : backBranches inner cs = some (first, b) ↔ ∃ behind, cs = '-' :: behind ∧
      longestRun (secondBack inner) [] behind = some (first, b) := by
    simp only [backBranches, Option.bind_eq_some_iff, afterHyphen_eq_some_iff]
    rfl
  rw [hread]
  constructor
  · rintro ⟨behind, rfl, hlongest⟩
    obtain ⟨rest, rfl, hrun⟩ := longestRun_eq_some_iff.1 hlongest
    exact ⟨rest, rfl, hrun⟩
  · rintro ⟨rest, rfl, hrun⟩
    exact ⟨_, rfl, longestRun_eq_some_iff.2 ⟨rest, rfl, hrun⟩⟩

theorem backBranches_cons_eq_none_iff : backBranches inner ('-' :: cs) = none ↔
    ∀ run rest, cs = run ++ rest → isRun run → secondBack inner rest = none :=
  longestRun_eq_none_iff

/-- The particles of a condition.  Behind the blanks of the first one its hyphen is found without a
search. -/
theorem particleBranches_eq_some_iff : particleBranches cs = some (first, b) ↔
    ∃ run gap rest, cs = run ++ gap ++ rest ∧ first = run ++ gap ∧ isRun run ∧
      gap ≠ [] ∧ allBlank gap ∧ secondFront isRunAndBlanks rest = some b := by
  constructor
  · intro h
    rw [particleBranches] at h
    split at h
    · cases h
    · next hne =>
      obtain ⟨_, hb, heq⟩ := Option.map_eq_some_iff.1 h
      cases heq
      rw [Bool.or_eq_true, not_or, List.isEmpty_iff, List.isEmpty_iff] at hne
      refine ⟨_, _, _, ?_, rfl, isRun_iff.2 ⟨hne.1, solid_takeWhile cs⟩, hne.2,
        allBlank_iff.2 fun c ↦ List.mem_takeWhile_imp, hb⟩
      rw [List.append_assoc, List.takeWhile_append_dropWhile, List.takeWhile_append_dropWhile]
  · rintro ⟨run, gap, rest, rfl, rfl, hrun, hgap, hblank, hb⟩
    obtain ⟨hne, hsolid⟩ := isRun_iff.1 hrun
    have hrest : (gap ++ rest).takeWhile isBlank = gap ∧
        (gap ++ rest).dropWhile isBlank = rest := by
      obtain ⟨_, _, _, -, rfl, -⟩ := secondFront_eq_some_iff.1 hb
      exact takeWhile_dropWhile_append_cons (allBlank_iff.1 hblank) (by decide) _
    have hcs : (run ++ gap ++ rest).takeWhile isSolid = run ∧
        (run ++ gap ++ rest).dropWhile isSolid = gap ++ rest := by
      obtain ⟨c, gap, rfl⟩ := List.exists_cons_of_ne_nil hgap
      have hc := allBlank_iff.1 hblank c (List.mem_cons_self ..)
      rw [List.append_assoc]
      exact takeWhile_dropWhile_append_cons (fun d hd ↦ by simp [isSolid, hsolid d hd])
        (by simp [isSolid, hc]) _
    rw [particleBranches, hcs.1, hcs.2, hrest.1, hrest.2, ← secondFront, hb]
    simp [hne, hgap]

end CellForm

end Glossopoeia
