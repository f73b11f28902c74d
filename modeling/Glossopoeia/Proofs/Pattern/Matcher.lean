import Glossopoeia.Pattern.Template
import Glossopoeia.Proofs.Text.Blank

/-!
# The characters of a match

Matching moves over a text and remembers pieces of it; it makes no characters of its own.  So if
something holds of all characters of a text, it holds of the characters around every place that the
matcher comes to, and of all that it remembers there (`Cursor.All`).

`Pattern.keeps_run` says so for every pattern.  It is by induction on the pattern; since the rest of
a match is handed on as a function, what is carried is that a step keeps a property of places if the
rest does (`Step.Keeps`), and the repetitions of `Step` are done once for any such step.

What is read off it is `Pattern.solid_replaceAll`: to replace matches by their own groups brings no
blank into a text without blanks.
-/

set_option autoImplicit false

namespace Glossopoeia

open Text

/-! ## Steps that keep a property of places -/

/-- Every place that the rest of the match ends at has the property, if the place that it is handed
does. -/
def Rest.Keeps (I : Cursor → Prop) (k : Rest) : Prop := ∀ s t, I s → k s = some t → I t

/-- A step keeps the property if it hands only places that have it to the rest of the match. -/
def Step.Keeps (I : Cursor → Prop) (m : Step) : Prop :=
  ∀ s k, I s → Rest.Keeps I k → ∀ t, m s k = some t → I t

namespace Step

variable {I : Cursor → Prop} {m : Step}

theorem keeps_some : Rest.Keeps I some := fun _ _ hs h ↦ Option.some.inj h ▸ hs

theorem keeps_exactly (hm : m.Keeps I) (n : Nat) : (exactly m n).Keeps I := by
  induction n with
  | zero => exact fun s k hs hk t h ↦ hk s t hs h
  | succ n ih => exact fun s k hs hk t h ↦ hm s _ hs (fun s' t' hs' h' ↦ ih s' k hs' hk t' h') t h

theorem eq_some_of_orElse {a b : Option Cursor} {t : Cursor} (h : (a <|> b) = some t) :
    a = some t ∨ b = some t := by
  rw [Option.orElse_eq_orElse, Option.orElse_eq_or] at h
  exact (Option.or_eq_some_iff.1 h).imp_right And.right

/-- One of two ways has been taken, whichever was tried first. -/
theorem eq_some_of_choice {a b : Option Cursor} {t : Cursor} {greedy : Bool}
    (h : (if greedy then a <|> b else b <|> a) = some t) : a = some t ∨ b = some t := by
  cases greedy with
  | true => exact eq_some_of_orElse h
  | false => exact (eq_some_of_orElse h).symm

theorem keeps_upTo (hm : m.Keeps I) (greedy : Bool) (n : Nat) : (upTo m greedy n).Keeps I := by
  induction n with
  | zero => exact fun s k hs hk t h ↦ hk s t hs h
  | succ n ih =>
    intro s k hs hk t h
    rcases eq_some_of_choice h with h | h
    · exact hm s _ hs (fun s' t' hs' h' ↦ ih s' k hs' hk t' h') t h
    · exact hk s t hs h

/-- A further round counts only if it consumes something; that takes places away and adds none. -/
theorem keeps_more (hm : m.Keeps I) (greedy : Bool) (fuel : Nat) :
    (more m greedy fuel).Keeps I := by
  induction fuel with
  | zero => exact fun s k hs hk t h ↦ hk s t hs h
  | succ fuel ih =>
    intro s k hs hk t h
    rcases eq_some_of_choice h with h | h
    · refine hm s _ hs (fun s' t' hs' h' ↦ ?_) t h
      split at h'
      · exact ih s' k hs' hk t' h'
      · cases h'
    · exact hk s t hs h

theorem keeps_many (hm : m.Keeps I) (greedy : Bool) : (many m greedy).Keeps I := by
  intro s k hs hk
  refine hm s _ hs fun s' t' hs' h' ↦ ?_
  split at h'
  · exact keeps_more hm greedy _ s' k hs' hk t' h'
  · exact hk s' t' hs' h'

theorem keeps_any (hm : m.Keeps I) (greedy : Bool) : (any m greedy).Keeps I := by
  intro s k hs hk t h
  rcases eq_some_of_choice h with h | h
  · exact keeps_many hm greedy s k hs hk t h
  · exact hk s t hs h

theorem keeps_rounds (hm : m.Keeps I) (least : Nat) (most : Option Nat) (greedy : Bool) :
    (rounds m least most greedy).Keeps I := by
  intro s k hs hk
  cases most with
  | some n =>
    exact keeps_exactly hm least s _ hs fun s' t' hs' h' ↦
      keeps_upTo hm greedy (n - least) s' k hs' hk t' h'
  | none =>
    cases least with
    | zero => exact keeps_any hm greedy s k hs hk
    | succ n =>
      exact keeps_exactly hm n s _ hs fun s' t' hs' h' ↦
        keeps_many hm greedy s' k hs' hk t' h'

end Step

/-! ## The characters around a place -/

namespace Cursor

/-- Does `P` hold of all characters of the text around the place and of all that is remembered? -/
structure All (P : Char → Prop) (s : Cursor) : Prop where
  /-- It holds of those to the left. -/
  before : ∀ c ∈ s.before, P c
  /-- It holds of those to the right. -/
  after : ∀ c ∈ s.after, P c
  /-- It holds of those that are remembered. -/
  groups : ∀ g ∈ s.groups, ∀ c ∈ g.2, P c

variable {P : Char → Prop} {s t : Cursor}

theorem All.textFrom (ht : t.All P) (s : Cursor) : ∀ c ∈ s.textFrom t, P c := by
  intro c hc
  rw [Cursor.textFrom, List.mem_reverse] at hc
  exact ht.before c (List.mem_of_mem_take hc)

theorem All.groupText? (hs : s.All P) {index : Nat} {text : List Char}
    (h : s.groupText? index = some text) : ∀ c ∈ text, P c := by
  obtain ⟨earlier, later, hgroups, _⟩ := List.lookup_eq_some_iff.1 h
  exact hs.groups (index, text) (by rw [hgroups]; simp)

theorem All.remember (hs : s.All P) {index : Nat} {text : List Char} (h : ∀ c ∈ text, P c) :
    All P { s with groups := (index, text) :: s.groups } where
  before := hs.before
  after := hs.after
  groups := List.forall_mem_cons.2 ⟨h, hs.groups⟩

/-- The place after one more character. -/
theorem All.next {c : Char} {rest : List Char} (hs : s.All P) (h : s.after = c :: rest) :
    All P ⟨c :: s.before, rest, s.groups⟩ := by
  have hafter := hs.after
  rw [h, List.forall_mem_cons] at hafter
  exact ⟨List.forall_mem_cons.2 ⟨hafter.1, hs.before⟩, hafter.2, hs.groups⟩

theorem All.skip? (hs : s.All P) {text : List Char} (h : s.skip? text = some t) : t.All P := by
  induction text generalizing s with
  | nil => exact Option.some.inj h ▸ hs
  | cons p ps ih =>
    rw [Cursor.skip?] at h
    split at h
    · cases h
    · next c rest hafter =>
      split at h
      · exact ih (hs.next hafter) h
      · cases h

theorem All.back? (hs : s.All P) {n : Nat} (h : s.back? n = some t) : t.All P := by
  induction n generalizing s with
  | zero => exact Option.some.inj h ▸ hs
  | succ n ih =>
    rw [Cursor.back?] at h
    split at h
    · cases h
    · next c rest hbefore =>
      have hall := hs.before
      rw [hbefore, List.forall_mem_cons] at hall
      exact ih (s := ⟨rest, c :: s.after, s.groups⟩)
        ⟨hall.2, List.forall_mem_cons.2 ⟨hall.1, hs.after⟩, hs.groups⟩ h

/-- The rest of a match after looking around: if something was to be found, it goes on from the same
place with what was remembered there. -/
def look (found? : Option Cursor) (expected : Bool) (s : Cursor) (k : Rest) : Option Cursor :=
  match found?, expected with
  | some t, true => k { s with groups := t.groups }
  | none, false => k s
  | _, _ => none

theorem All.look {found? : Option Cursor} {expected : Bool} {k : Rest} (hs : s.All P)
    (hk : Rest.Keeps (All P) k) (hfound : ∀ found, found? = some found → found.All P)
    (h : look found? expected s k = some t) : t.All P := by
  cases found? with
  | none =>
    cases expected with
    | true => cases h
    | false => exact hk s t hs h
  | some found =>
    cases expected with
    | true =>
      exact hk { s with groups := found.groups } t
        ⟨hs.before, hs.after, (hfound found rfl).groups⟩ h
    | false => cases h

end Cursor

namespace Pattern

variable {P : Char → Prop}

theorem run_ahead (expected : Bool) (p : Pattern) (s : Cursor) (k : Rest) :
    (ahead expected p).run s k = Cursor.look (p.run s some) expected s k := by
  rw [run.eq_def]
  rfl

theorem run_behind (expected : Bool) (width : Nat) (p : Pattern) (s : Cursor) (k : Rest) :
    (behind expected width p).run s k
      = Cursor.look ((s.back? width).bind fun start ↦ p.run start some) expected s k := by
  rw [run.eq_def]
  rfl

/-- **Matching makes no characters**: a pattern hands on only places whose characters are those of
the text. -/
theorem keeps_run (p : Pattern) : Step.Keeps (Cursor.All P) p.run := by
  induction p with
  | empty => exact fun s k hs hk t h ↦ hk s t hs h
  | one set =>
    intro s k hs hk t h
    rw [run] at h
    split at h
    · cases h
    · next c rest hafter =>
      split at h
      · exact hk _ t (hs.next hafter) h
      · cases h
  | place a =>
    intro s k hs hk t h
    rw [run] at h
    split at h
    · exact hk s t hs h
    · cases h
  | seq p q ihp ihq =>
    exact fun s k hs hk t h ↦ ihp s _ hs (fun s' t' hs' h' ↦ ihq s' k hs' hk t' h') t h
  | alt p q ihp ihq =>
    intro s k hs hk t h
    rcases Step.eq_some_of_orElse h with h | h
    · exact ihp s k hs hk t h
    · exact ihq s k hs hk t h
  | group index p ih =>
    exact fun s k hs hk t h ↦
      ih s _ hs (fun s' t' hs' h' ↦ hk _ t' (hs'.remember (hs'.textFrom s)) h') t h
  | repeated p least most greedy ih => exact Step.keeps_rounds ih least most greedy
  | backreference index =>
    intro s k hs hk t h
    rw [run] at h
    obtain ⟨text, _, h⟩ := Option.bind_eq_some_iff.1 h
    obtain ⟨s', hs', h⟩ := Option.bind_eq_some_iff.1 h
    exact hk s' t (hs.skip? hs') h
  | ahead expected p ih =>
    intro s k hs hk t h
    rw [run_ahead] at h
    exact hs.look hk (fun found hfound ↦ ih s some hs Step.keeps_some found hfound) h
  | behind expected width p ih =>
    intro s k hs hk t h
    rw [run_behind] at h
    refine hs.look hk (fun found hfound ↦ ?_) h
    obtain ⟨start, hstart, hrun⟩ := Option.bind_eq_some_iff.1 hfound
    exact ih start some (hs.back? hstart) Step.keeps_some found hrun
  | atomic p ih =>
    intro s k hs hk t h
    rw [run] at h
    obtain ⟨s', hs', h⟩ := Option.bind_eq_some_iff.1 h
    exact hk s' t (ih s some hs Step.keeps_some s' hs') h

/-! ## The segments of a text -/

/-- Does `P` hold of all characters of the segment and of all that is remembered in it? -/
def Segment.All (P : Char → Prop) : Segment → Prop
  | .kept text => ∀ c ∈ text, P c
  | .found m => m.start.All P ∧ m.stop.All P

theorem all_searchFrom {p : Pattern} {before after : List Char} (hbefore : ∀ c ∈ before, P c)
    (hafter : ∀ c ∈ after, P c) {m : Match} (h : p.searchFrom before after = some m) :
    m.start.All P ∧ m.stop.All P := by
  have hnone : ∀ g ∈ ([] : List (Nat × List Char)), ∀ c ∈ g.2, P c :=
    fun _ h ↦ absurd h List.not_mem_nil
  induction after generalizing before with
  | nil =>
    obtain ⟨stop, hstop, rfl⟩ := Option.map_eq_some_iff.1 h
    exact ⟨⟨hbefore, hafter, hnone⟩,
      p.keeps_run _ some ⟨hbefore, hafter, hnone⟩ Step.keeps_some _ hstop⟩
  | cons c rest ih =>
    rw [searchFrom] at h
    split at h
    · next stop hstop =>
      cases h
      exact ⟨⟨hbefore, hafter, hnone⟩,
        p.keeps_run _ some ⟨hbefore, hafter, hnone⟩ Step.keeps_some _ hstop⟩
    · rw [List.forall_mem_cons] at hafter
      exact ih (List.forall_mem_cons.2 ⟨hafter.1, hbefore⟩) hafter.2 h

theorem all_segmentsFrom (p : Pattern) (fuel : Nat) (closed : Bool) {before after : List Char}
    (hbefore : ∀ c ∈ before, P c) (hafter : ∀ c ∈ after, P c) :
    ∀ segment ∈ p.segmentsFrom fuel closed before after, Segment.All P segment := by
  induction fuel generalizing closed before after with
  | zero =>
    intro segment h
    rw [List.mem_singleton.1 h]
    exact hafter
  | succ fuel ih =>
    -- After an empty match one character is passed over.
    have hover : ∀ (head : List Segment) (before : List Char) (c : Char) (rest : List Char),
        (∀ segment ∈ head, Segment.All P segment) → (∀ c ∈ before, P c) →
          (∀ d ∈ c :: rest, P d) →
            ∀ segment ∈ head ++ Segment.kept [c] :: segmentsFrom p fuel false (c :: before) rest,
              Segment.All P segment := by
      intro head before c rest hhead hbefore hafter segment h
      rw [List.forall_mem_cons] at hafter
      rcases List.mem_append.1 h with h | h
      · exact hhead segment h
      · rcases List.mem_cons.1 h with rfl | h
        · exact List.forall_mem_singleton.2 hafter.1
        · exact ih false (List.forall_mem_cons.2 ⟨hafter.1, hbefore⟩) hafter.2 segment h
    rw [segmentsFrom]
    split
    · exact List.forall_mem_singleton.2 hafter
    · next m hm =>
      have hm := all_searchFrom hbefore hafter hm
      have hgap : ∀ n, Segment.All P (Segment.kept (after.take n)) :=
        fun _ c hc ↦ hafter c (List.mem_of_mem_take hc)
      dsimp only
      split
      · split
        · split
          · exact fun _ h ↦ absurd h List.not_mem_nil
          · exact hover [] before _ _ (fun _ h ↦ absurd h List.not_mem_nil) hbefore hafter
        · have hhead := List.forall_mem_cons.2 ⟨hgap (m.start.before.length - before.length),
            List.forall_mem_singleton.2 (show Segment.All P (.found m) from hm)⟩
          split
          · exact hhead
          · next hrest =>
            have hall := hm.2.after
            rw [hrest] at hall
            exact hover _ _ _ _ hhead hm.2.before hall
      · exact List.forall_mem_cons.2
          ⟨hgap _, List.forall_mem_cons.2 ⟨hm, ih true hm.2.before hm.2.after⟩⟩

end Pattern

/-! ## Replacing matches by their groups -/

/-- Does the replacement text consist of groups alone? -/
def Template.GroupsOnly (t : Template) : Prop := ∀ piece ∈ t, ∃ index, piece = .group index

theorem Pattern.Match.all_group? {P : Char → Prop} {m : Match} (hm : m.start.All P ∧ m.stop.All P)
    {index : Nat} {text : List Char} (h : m.group? index = some text) : ∀ c ∈ text, P c := by
  rw [group?] at h
  split at h
  · cases h
    exact hm.2.textFrom m.start
  · exact hm.2.groupText? h

/-- **To replace matches by their own groups brings no blanks into a text.** -/
theorem Pattern.solid_replaceAll (p : Pattern) {t : Template} (ht : t.GroupsOnly) {cs : List Char}
    (hcs : Solid cs) : Solid (p.replaceAll t cs) := by
  have hsegments : ∀ segment ∈ p.segments cs, Segment.All (fun c ↦ isBlank c = false) segment :=
    p.all_segmentsFrom _ false (fun _ h ↦ absurd h List.not_mem_nil) hcs
  intro c hc
  obtain ⟨segment, hsegment, hc⟩ := List.mem_flatMap.1 hc
  have hall := hsegments segment hsegment
  cases segment with
  | kept text => exact hall c hc
  | found m =>
    obtain ⟨piece, hpiece, hc⟩ := List.mem_flatMap.1 hc
    obtain ⟨index, rfl⟩ := ht piece hpiece
    cases hgroup : m.group? index with
    | none =>
      simp only [hgroup] at hc
      exact absurd hc List.not_mem_nil
    | some text =>
      simp only [hgroup] at hc
      exact m.all_group? hall hgroup c hc

end Glossopoeia
