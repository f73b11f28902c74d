import Mathlib.Data.List.Basic
import Glossopoeia.GrammarTable.Label

/-!
# Paths are cut greedily

The path of a cell is a row of abbreviations, and since an abbreviation may have full stops of its
own, a path can often be cut in several ways.  `Labels.Cuts` says which way is meant without saying
how it is found: every segment is an abbreviation, and no longer abbreviation begins where the
segment does.  At most one row of segments leaves a rest that no abbreviation begins
(`Labels.Cuts.unique`), and there is one, which the search for longest abbreviations comes to
(`Labels.exists_cuts`).

So a path resolves exactly if nothing is left, and to the names of its segments; else the error
names what is left (`Labels.resolve_cuts`).  Nothing is taken back: a path whose rest is stuck does
not resolve even if shorter segments would have led to the end.
-/

set_option autoImplicit false

namespace Glossopoeia.Labels

variable {labels : Labels} {parts segment behind rest : List String} {name : String}

/-- Does no abbreviation begin the parts? -/
def IsStuck (labels : Labels) (parts : List String) : Prop :=
  ∀ front, front ≠ [] → front <+: parts → labels.get? (joinParts front) = none

/-- Is the segment an abbreviation, and does none of those that go on into the parts behind it begin
where it does? -/
structure IsLongest (labels : Labels) (segment behind : List String) (name : String) : Prop where
  /-- There is a part in it. -/
  ne_nil : segment ≠ []
  /-- It is the abbreviation of a label. -/
  get? : labels.get? (joinParts segment) = some name
  /-- It cannot be made longer. -/
  longest : ∀ more, more ≠ [] → more <+: behind → labels.get? (joinParts (segment ++ more)) = none

/-- Are these the segments that are cut off the parts, each with the name that it stands for, and is
this the rest? -/
inductive Cuts (labels : Labels) :
    List String → List (List String × String) → List String → Prop
  /-- Nothing is cut off. -/
  | nil (rest : List String) : Cuts labels rest [] rest
  /-- The longest abbreviation is cut off, and then others. -/
  | cons {segment behind rest : List String} {name : String}
      {segments : List (List String × String)} (hlongest : labels.IsLongest segment behind name)
      (hbehind : Cuts labels behind segments rest) :
      Cuts labels (segment ++ behind) ((segment, name) :: segments) rest

/-! ## One way to cut -/

theorem isStuck_nil : labels.IsStuck [] :=
  fun _ hne hbegins ↦ absurd (List.prefix_nil.1 hbegins) hne

theorem IsLongest.eq_nil (h : labels.IsLongest segment behind name) {more : List String}
    {name' : String} (hbegins : more <+: behind)
    (hget : labels.get? (joinParts (segment ++ more)) = some name') : more = [] := by
  by_contra hne
  rw [h.longest more hne hbegins] at hget
  cases hget

/-- Where an abbreviation begins, one is the longest. -/
theorem IsLongest.unique {segment' behind' : List String} {name' : String}
    (h : labels.IsLongest segment behind name) (h' : labels.IsLongest segment' behind' name')
    (hparts : segment ++ behind = segment' ++ behind') :
    segment = segment' ∧ behind = behind' ∧ name = name' := by
  have hsegment : segment = segment' := by
    rcases List.append_eq_append_iff.1 hparts with ⟨more, rfl, rfl⟩ | ⟨more, rfl, rfl⟩
    · simp [h.eq_nil (List.prefix_append more behind') h'.get?]
    · simp [h'.eq_nil (List.prefix_append more behind) h.get?]
  subst hsegment
  exact ⟨rfl, List.append_cancel_left hparts, Option.some.inj (h.get?.symm.trans h'.get?)⟩

/-- Where an abbreviation begins, the parts are not stuck. -/
theorem IsLongest.not_isStuck (h : labels.IsLongest segment behind name) :
    ¬labels.IsStuck (segment ++ behind) := by
  intro hstuck
  have hnone := hstuck segment h.ne_nil (List.prefix_append segment behind)
  rw [h.get?] at hnone
  cases hnone

/-- **There is one way to cut** that leaves a rest which no abbreviation begins. -/
theorem Cuts.unique {segments segments' : List (List String × String)} {rest' : List String}
    (h : labels.Cuts parts segments rest) (h' : labels.Cuts parts segments' rest')
    (hrest : labels.IsStuck rest) (hrest' : labels.IsStuck rest') :
    segments = segments' ∧ rest = rest' := by
  induction h generalizing segments' rest' with
  | nil rest =>
    cases h' with
    | nil => exact ⟨rfl, rfl⟩
    | cons hlongest => exact absurd hrest hlongest.not_isStuck
  | @cons segment behind rest name segments hlongest _ ih =>
    generalize hparts : segment ++ behind = parts at h'
    cases h' with
    | nil => exact absurd hrest' (hparts ▸ hlongest.not_isStuck)
    | cons hlongest' hbehind' =>
      obtain ⟨rfl, rfl, rfl⟩ := hlongest.unique hlongest' hparts
      obtain ⟨rfl, rfl⟩ := ih hbehind' hrest hrest'
      exact ⟨rfl, rfl⟩

/-! ## The search for the longest abbreviation -/

theorem longest?_eq_none {n : Nat} (h : labels.longest? parts n = none) :
    ∀ k, 0 < k → k ≤ n → labels.get? (joinParts (parts.take k)) = none := by
  induction n with
  | zero => omega
  | succ n ih =>
    rw [longest?] at h
    split at h
    · cases h
    · next hget =>
      intro k hpos hk
      rcases Nat.le_succ_iff.1 hk with hk | rfl
      · exact ih h k hpos hk
      · exact hget

theorem longest?_eq_some {n m : Nat} (h : labels.longest? parts n = some (name, m)) :
    (0 < m ∧ m ≤ n) ∧ labels.get? (joinParts (parts.take m)) = some name ∧
      ∀ k, m < k → k ≤ n → labels.get? (joinParts (parts.take k)) = none := by
  induction n with
  | zero => cases h
  | succ n ih =>
    rw [longest?] at h
    split at h
    · next hget =>
      cases h
      exact ⟨by omega, hget, by omega⟩
    · next hget =>
      obtain ⟨hm, hname, hlonger⟩ := ih h
      refine ⟨by omega, hname, fun k hmk hk ↦ ?_⟩
      rcases Nat.le_succ_iff.1 hk with hk | rfl
      · exact hlonger k hmk hk
      · exact hget

theorem isStuck_of_longest? (h : labels.longest? parts parts.length = none) :
    labels.IsStuck parts := by
  intro front hne hbegins
  rw [List.prefix_iff_eq_take.1 hbegins]
  exact longest?_eq_none h _ (List.length_pos_iff.2 hne) hbegins.length_le

theorem isLongest_of_longest? {m : Nat}
    (h : labels.longest? parts parts.length = some (name, m)) :
    labels.IsLongest (parts.take m) (parts.drop m) name := by
  obtain ⟨⟨hpos, hm⟩, hname, hlonger⟩ := longest?_eq_some h
  have hlength : (parts.take m).length = m := List.length_take_of_le hm
  refine ⟨?_, hname, fun more hne hbegins ↦ ?_⟩
  · rw [← List.length_pos_iff, hlength]
    exact hpos
  · have hfront : parts.take m ++ more <+: parts := by
      conv_rhs => rw [← List.take_append_drop m parts]
      exact (List.prefix_append_right_inj _).2 hbegins
    have hmore : 0 < more.length := List.length_pos_iff.2 hne
    rw [List.prefix_iff_eq_take.1 hfront]
    refine hlonger _ ?_ hfront.length_le
    rw [List.length_append, hlength]
    omega

/-- **The parts are cut as `segment` says**, if it has fuel for each of them. -/
theorem exists_cuts {fuel : Nat} (h : parts.length ≤ fuel) :
    ∃ segments rest, labels.Cuts parts segments rest ∧ labels.IsStuck rest ∧
      labels.segment fuel parts
        = if rest = [] then .names (segments.map Prod.snd) else .stuck rest := by
  induction fuel generalizing parts with
  | zero =>
    obtain rfl := List.length_eq_zero_iff.1 (Nat.le_zero.1 h)
    exact ⟨[], [], .nil [], isStuck_nil, rfl⟩
  | succ fuel ih =>
    cases parts with
    | nil => exact ⟨[], [], .nil [], isStuck_nil, rfl⟩
    | cons part parts =>
      rw [segment]
      · cases hfound : labels.longest? (part :: parts) (part :: parts).length with
        | none => exact ⟨[], _, .nil _, isStuck_of_longest? hfound, rfl⟩
        | some found =>
          obtain ⟨name, m⟩ := found
          have hm := (longest?_eq_some hfound).1
          obtain ⟨segments, rest, hcuts, hstuck, hsegment⟩ :=
            @ih ((part :: parts).drop m) (by rw [List.length_drop]; omega)
          refine ⟨((part :: parts).take m, name) :: segments, rest, ?_, hstuck, ?_⟩
          · have hcons := Cuts.cons (isLongest_of_longest? hfound) hcuts
            rwa [List.take_append_drop] at hcons
          · dsimp only
            rw [hsegment]
            by_cases hrest : rest = [] <;> simp [hrest]
      · exact List.cons_ne_nil _ _

/-! ## What paths resolve to -/

theorem exists_resolve_eq (labels : Labels) (path : List Char) (line : String) :
    ∃ segments rest, labels.Cuts (pathParts path) segments rest ∧ labels.IsStuck rest ∧
      labels.resolve path line = if rest = []
        then .ok (String.intercalate " " (segments.map Prod.snd))
        else .error (.unmappedDeclension (joinParts rest) line) := by
  obtain ⟨segments, rest, hcuts, hstuck, hsegment⟩ :=
    @exists_cuts labels (pathParts path) _ (Nat.le_refl _)
  refine ⟨segments, rest, hcuts, hstuck, ?_⟩
  rw [resolve, hsegment]
  by_cases hrest : rest = [] <;> simp [hrest]

/-- **What a path resolves to.**  The parts of the path are cut into segments, each of them the
longest abbreviation where it begins.  If nothing is left, the path resolves to the names of the
segments in order, and to nothing else; if something is left that no abbreviation begins, the error
names it.  One of the two is the case for every path. -/
theorem resolve_cuts (labels : Labels) (path : List Char) (line : String) :
    (∀ declension, labels.resolve path line = .ok declension ↔
      ∃ segments, labels.Cuts (pathParts path) segments [] ∧
        declension = String.intercalate " " (segments.map Prod.snd)) ∧
    ∀ error, labels.resolve path line = .error error ↔
      ∃ segments rest, labels.Cuts (pathParts path) segments rest ∧ rest ≠ [] ∧
        labels.IsStuck rest ∧ error = .unmappedDeclension (joinParts rest) line := by
  obtain ⟨segments, rest, hcuts, hstuck, hresolve⟩ := exists_resolve_eq labels path line
  rw [hresolve]
  constructor
  · intro declension
    constructor
    · intro h
      split at h
      · next hrest =>
        cases h
        exact ⟨segments, hrest ▸ hcuts, rfl⟩
      · cases h
    · rintro ⟨segments', hcuts', rfl⟩
      obtain ⟨rfl, rfl⟩ := hcuts.unique hcuts' hstuck isStuck_nil
      rw [if_pos rfl]
  · intro error
    constructor
    · intro h
      split at h
      · cases h
      · next hrest =>
        cases h
        exact ⟨segments, rest, hcuts, hrest, hstuck, rfl⟩
    · rintro ⟨segments', rest', hcuts', hne, hstuck', rfl⟩
      obtain ⟨rfl, rfl⟩ := hcuts.unique hcuts' hstuck hstuck'
      rw [if_neg hne]

/-- `A` and `B.C` would lead to the end, but `A.B` is the longest abbreviation. -/
example : resolve (.ofList [("A", "Active"), ("A.B", "Absolute"), ("B.C", "Causative")])
    "A..B.C".toList "A..B.C ~ -s" = .error (.unmappedDeclension "C" "A..B.C ~ -s") := by decide

end Glossopoeia.Labels
