import Mathlib.Data.List.Forall2
import Glossopoeia.Proofs.Pattern.Literal

/-!
# Rewriting from left to right

To replace all matches of a pattern is to go through the text once: where the pattern matches the
matched text is passed over and something else written, and elsewhere a character is copied.  What
counts as a match may depend on what stands before and behind it.  `Rewritten` says this for any
such notion of a hit, without places, groups and fuel.  A text is rewritten in one way if one hit at
most begins at a place (`Rewritten.unique`), so two programs that rewrite the same hits agree.

Whether a replacement is a rewriting is decided at one place at a time (`Pattern.Rewrites`): the
pattern must match there exactly if there is a hit, and the template must write what belongs to the
hit.  From that `rewritten_replaceAll` goes through the whole text.

The patterns of spelling rules have no choice to make: at most one text matches them at one place.
What their pieces match one after the other is said by equivalences, which the second half of this
module gives for characters and classes, anchors, and groups of one class.
-/

set_option autoImplicit false

namespace Glossopoeia

/-! ## Rewritten texts -/

/-- What a rewriting may do at one place: with `before` on the left, the nearest character first,
the text `matched`, behind which `rest` follows, can be rewritten to `new`. -/
abbrev Hit := List Char → List Char → List Char → List Char → Prop

/-- The second text is what becomes of the first one, which stands behind `before`, if every hit is
rewritten from left to right: a character is kept only where there is no hit. -/
inductive Rewritten (hit : Hit) : List Char → List Char → List Char → Prop
  | done {before : List Char} : Rewritten hit before [] []
  | kept {before rest result : List Char} {c : Char}
      (hmiss : ∀ matched after new, c :: rest = matched ++ after → ¬hit before matched after new)
      (h : Rewritten hit (c :: before) rest result) :
      Rewritten hit before (c :: rest) (c :: result)
  | found {before matched rest new result : List Char} (hhit : hit before matched rest new)
      (h : Rewritten hit (matched.reverse ++ before) rest result) :
      Rewritten hit before (matched ++ rest) (new ++ result)

namespace Rewritten

variable {hit : Hit} {before text result : List Char}

/-- Nothing becomes of nothing, if no hit is empty. -/
theorem of_nil (hne : ∀ {before matched rest new}, hit before matched rest new → matched ≠ [])
    (h : Rewritten hit before [] result) : result = [] := by
  generalize htext : [] = text at h
  cases h with
  | done => rfl
  | kept => cases htext
  | found hhit => exact absurd (List.append_eq_nil_iff.1 htext.symm).1 (hne hhit)

/-- The first character is kept, or a hit begins there. -/
theorem of_cons {c : Char} {rest : List Char} (h : Rewritten hit before (c :: rest) result) :
    (∃ result', result = c :: result' ∧ Rewritten hit (c :: before) rest result' ∧
      ∀ matched after new, c :: rest = matched ++ after → ¬hit before matched after new) ∨
    ∃ matched after new result', c :: rest = matched ++ after ∧ hit before matched after new ∧
      result = new ++ result' ∧ Rewritten hit (matched.reverse ++ before) after result' := by
  generalize htext : c :: rest = text at h
  cases h with
  | done => cases htext
  | kept hmiss h =>
    cases htext
    exact .inl ⟨_, rfl, h, hmiss⟩
  | found hhit h => exact .inr ⟨_, _, _, _, rfl, hhit, rfl, h⟩

/-- A text is rewritten in one way, if one hit at most begins at a place. -/
theorem unique {result' : List Char} (h : Rewritten hit before text result)
    (hne : ∀ {before matched rest new}, hit before matched rest new → matched ≠ [])
    (hone : ∀ {before matched rest new matched' rest' new'}, hit before matched rest new →
      hit before matched' rest' new' → matched ++ rest = matched' ++ rest' →
        matched = matched' ∧ new = new')
    (h' : Rewritten hit before text result') : result = result' := by
  induction h generalizing result' with
  | done => exact (of_nil hne h').symm
  | kept hmiss _ ih =>
    rcases h'.of_cons with ⟨result', rfl, h', -⟩ | ⟨matched, after, new, _, htext, hhit, -⟩
    · rw [ih h']
    · exact absurd hhit (hmiss matched after new htext)
  | @found before matched rest new result hhit _ ih =>
    obtain ⟨c, more, htext⟩ := List.exists_cons_of_ne_nil
      (List.append_ne_nil_of_left_ne_nil (hne hhit) rest)
    rw [htext] at h'
    rcases h'.of_cons with
      ⟨_, -, -, hmiss⟩ | ⟨matched', after, new', result', htext', hhit', rfl, h'⟩
    · exact absurd hhit (hmiss matched rest new htext.symm)
    · obtain ⟨rfl, rfl⟩ := hone hhit hhit' (htext.trans htext')
      obtain rfl := List.append_cancel_left (htext.trans htext')
      rw [ih h']

/-- Where no hit begins, all is kept. -/
theorem eq_of_forall_not (h : Rewritten hit before text result)
    (hmiss : ∀ gap matched rest new, text = gap ++ (matched ++ rest) →
      ¬hit (gap.reverse ++ before) matched rest new) : result = text := by
  induction h with
  | done => rfl
  | @kept before rest result c _ _ ih =>
    refine congrArg _ (ih fun gap matched rest' new heq ↦ ?_)
    have hgap := hmiss (c :: gap) matched rest' new (congrArg _ heq)
    rwa [List.reverse_cons, List.append_assoc] at hgap
  | found hhit _ _ => exact absurd hhit (hmiss [] _ _ _ rfl)

/-- A gap in which no hit begins is kept. -/
theorem append {rest : List Char} (gap : List Char)
    (h : Rewritten hit (gap.reverse ++ before) rest result)
    (hmiss : ∀ a c b, gap = a ++ c :: b → ∀ matched after new,
      c :: b ++ rest = matched ++ after → ¬hit (a.reverse ++ before) matched after new) :
    Rewritten hit before (gap ++ rest) (gap ++ result) := by
  induction gap generalizing before with
  | nil => exact h
  | cons c gap ih =>
    rw [List.reverse_cons, List.append_assoc] at h
    refine .kept (hmiss [] c gap rfl) (ih h fun a d b heq matched after new ↦ ?_)
    have hgap := hmiss (c :: a) d b (congrArg _ heq) matched after new
    rwa [List.reverse_cons, List.append_assoc] at hgap

/-- If nothing is rewritten behind a hit, one hit at most is. -/
theorem eq_or_exists (h : Rewritten hit before text result)
    (hne : ∀ {before matched rest new}, hit before matched rest new → matched ≠ [])
    (hlast : ∀ {before matched rest new result}, hit before matched rest new →
      Rewritten hit (matched.reverse ++ before) rest result → result = rest) :
    (result = text ∧ ∀ gap matched rest new, text = gap ++ (matched ++ rest) →
      ¬hit (gap.reverse ++ before) matched rest new) ∨
    ∃ gap matched rest new, text = gap ++ (matched ++ rest) ∧
      hit (gap.reverse ++ before) matched rest new ∧ result = gap ++ (new ++ rest) := by
  induction h with
  | done =>
    refine .inl ⟨rfl, fun gap matched rest new heq hhit ↦ hne hhit ?_⟩
    exact (List.append_eq_nil_iff.1 (List.append_eq_nil_iff.1 heq.symm).2).1
  | @kept before rest result c hmiss _ ih =>
    rcases ih with ⟨rfl, hnone⟩ | ⟨gap, matched, after, new, rfl, hhit, rfl⟩
    · refine .inl ⟨rfl, fun gap matched after new heq ↦ ?_⟩
      cases gap with
      | nil => exact hmiss matched after new heq
      | cons d gap =>
        obtain ⟨rfl, hgap⟩ := List.cons.inj heq
        rw [List.reverse_cons, List.append_assoc]
        exact hnone gap matched after new hgap
    · refine .inr ⟨c :: gap, matched, after, new, rfl, ?_, rfl⟩
      rwa [List.reverse_cons, List.append_assoc]
  | @found before matched rest new result hhit h _ =>
    obtain rfl := hlast hhit h
    exact .inr ⟨[], matched, result, new, rfl, hhit, rfl⟩

end Rewritten

namespace Pattern

/-- The match that is found begins at the first place where there is one. -/
theorem exists_gap_of_searchFrom {p : Pattern} {before after : List Char} {m : Match}
    (h : p.searchFrom before after = some m) :
    ∃ gap rest, after = gap ++ rest ∧ m.start = ⟨gap.reverse ++ before, rest, []⟩ ∧
      p.run m.start some = some m.stop ∧
      ∀ a c b, gap = a ++ c :: b → p.run ⟨a.reverse ++ before, c :: b ++ rest, []⟩ some = none := by
  have hnil : ∀ (a : List Char) (c : Char) (b : List Char), [] ≠ a ++ c :: b := by simp
  induction after generalizing before with
  | nil =>
    obtain ⟨stop, hrun, rfl⟩ := Option.map_eq_some_iff.1 h
    exact ⟨[], [], rfl, rfl, hrun, fun a c b heq ↦ absurd heq (hnil a c b)⟩
  | cons d rest ih =>
    rw [searchFrom] at h
    split at h
    · next stop hrun =>
      cases h
      exact ⟨[], d :: rest, rfl, rfl, hrun, fun a c b heq ↦ absurd heq (hnil a c b)⟩
    · next hrun =>
      obtain ⟨gap, rest, rfl, hstart, hstop, hgap⟩ := ih h
      refine ⟨d :: gap, rest, rfl, by rw [hstart]; simp, hstop, fun a c b heq ↦ ?_⟩
      cases a with
      | nil =>
        obtain ⟨rfl, rfl⟩ := List.cons.inj heq
        exact hrun
      | cons e a =>
        obtain ⟨rfl, htail⟩ := List.cons.inj heq
        have hnone := hgap a c b htail
        rwa [List.reverse_cons, List.append_assoc]

/-- If no match is found, there is none at any place. -/
theorem run_eq_none_of_searchFrom {p : Pattern} {before after : List Char}
    (h : p.searchFrom before after = none) (a b : List Char) (heq : after = a ++ b) :
    p.run ⟨a.reverse ++ before, b, []⟩ some = none := by
  induction after generalizing before a with
  | nil =>
    obtain ⟨rfl, rfl⟩ := List.append_eq_nil_iff.1 heq.symm
    exact Option.map_eq_none_iff.1 h
  | cons d rest ih =>
    rw [searchFrom] at h
    split at h
    · cases h
    · next hrun =>
      cases a with
      | nil =>
        rw [List.nil_append] at heq
        exact heq ▸ hrun
      | cons e a =>
        obtain ⟨rfl, htail⟩ := List.cons.inj heq
        have hnone := ih h a htail
        rwa [List.reverse_cons, List.append_assoc]

/-- A pattern occurs in a text if it matches at one of its places. -/
theorem occursIn_iff {p : Pattern} {cs : List Char} : p.occursIn cs = true ↔
    ∃ a b stop, cs = a ++ b ∧ p.run ⟨a.reverse, b, []⟩ some = some stop := by
  rw [occursIn]
  cases hsearch : p.searchFrom [] cs with
  | none =>
    refine iff_of_false Bool.false_ne_true ?_
    rintro ⟨a, b, stop, heq, hrun⟩
    have hnone := run_eq_none_of_searchFrom hsearch a b heq
    rw [List.append_nil, hrun] at hnone
    cases hnone
  | some m =>
    obtain ⟨gap, rest, hcs, hstart, hrun, -⟩ := exists_gap_of_searchFrom hsearch
    rw [hstart, List.append_nil] at hrun
    exact iff_of_true rfl ⟨gap, rest, m.stop, hcs, hrun⟩

/-- The replacement rewrites just the hits: where it matches a text there is a hit, which is not
empty, and where there is a hit it matches. -/
structure Rewrites (p : Pattern) (t : Template) (hit : Hit) : Prop where
  /-- A match is a hit, and the template writes what belongs to it. -/
  of_run : ∀ {before after : List Char} {stop : Cursor},
    p.run ⟨before, after, []⟩ some = some stop →
      ∃ matched rest, after = matched ++ rest ∧ matched ≠ [] ∧
        stop.before = matched.reverse ++ before ∧ stop.after = rest ∧
        hit before matched rest (t.fill (Match.group? ⟨⟨before, after, []⟩, stop⟩))
  /-- At a hit there is a match. -/
  run_ne_none : ∀ {before matched rest new : List Char}, hit before matched rest new →
    p.run ⟨before, matched ++ rest, []⟩ some ≠ none

namespace Rewrites

variable {p : Pattern} {t : Template} {hit : Hit}

/-- Where the pattern does not match there is no hit. -/
theorem not_hit (h : p.Rewrites t hit) {before after : List Char}
    (hrun : p.run ⟨before, after, []⟩ some = none) (matched rest new : List Char)
    (heq : after = matched ++ rest) : ¬hit before matched rest new :=
  fun hhit ↦ h.run_ne_none hhit (heq ▸ hrun)

/-- Segments of a text that are copied if they are kept, and filled in if they are found. -/
theorem rewritten_segmentsFrom (h : p.Rewrites t hit) {write : Segment → List Char}
    (hkept : ∀ text, write (.kept text) = text) (hfound : ∀ m, write (.found m) = t.fill m.group?)
    {fuel : Nat} (closed : Bool) (before : List Char) {after : List Char}
    (hfuel : after.length < fuel) :
    Rewritten hit before after ((p.segmentsFrom fuel closed before after).flatMap write) := by
  induction fuel generalizing closed before after with
  | zero => exact absurd hfuel (Nat.not_lt_zero _)
  | succ fuel ih =>
    rw [segmentsFrom]
    dsimp only
    cases hsearch : p.searchFrom before after with
    | none =>
      have hmiss : Rewritten hit before (after ++ []) (after ++ []) :=
        Rewritten.append after .done fun a c b heq matched rest new ↦
          h.not_hit (run_eq_none_of_searchFrom hsearch a _ (by rw [heq, List.append_nil])) _ _ _
      simpa [hkept] using hmiss
    | some m =>
      obtain ⟨gap, after, rfl, hstart, hrun, hgap⟩ := exists_gap_of_searchFrom hsearch
      rw [hstart] at hrun
      obtain ⟨matched, rest, rfl, hne, hbefore, hafter, hhit⟩ := h.of_run hrun
      rw [← hstart] at hhit
      have hpos := List.length_pos_iff.2 hne
      have hnonempty : m.isEmpty = false := by
        simp [Match.isEmpty, Cursor.advanced, hstart, hafter, hpos]
      have htake : (gap ++ (matched ++ rest)).take (m.start.before.length - before.length)
          = gap := by simp [hstart]
      have hrest : rest.length < fuel := by
        simp only [List.length_append] at hfuel
        omega
      dsimp only
      rw [htake, hnonempty]
      simp only [Bool.false_eq_true, if_false, List.flatMap_cons, hkept, hfound]
      rw [hafter, hbefore]
      exact Rewritten.append gap (.found hhit (ih true _ hrest)) fun a c b heq _ _ _ ↦
        h.not_hit (hgap a c b heq) _ _ _

/-- **To replace the matches of a pattern is to rewrite the hits from left to right.** -/
theorem rewritten_replaceAll (h : p.Rewrites t hit) (cs : List Char) :
    Rewritten hit [] cs (p.replaceAll t cs) :=
  h.rewritten_segmentsFrom (fun _ ↦ rfl) (fun _ ↦ rfl) false [] (Nat.lt_succ_self _)

end Rewrites

/-! ## Patterns without a choice -/

/-- Is the text made of one character of each set in turn? -/
abbrev Fits (sets : List CharSet) (text : List Char) : Prop :=
  List.Forall₂ (fun set c ↦ set.contains c = true) sets text

section Run

variable {pieces : List Pattern} {s t : Cursor} {k : Rest}

theorem exists_next {c : Char} {rest : List Char} {P : Char → List Char → Prop} :
    (∃ d more, c :: rest = d :: more ∧ P d more) ↔ P c rest :=
  ⟨by rintro ⟨_, _, ⟨⟩, h⟩; exact h, fun h ↦ ⟨c, rest, rfl, h⟩⟩

theorem run_one_eq_some {set : CharSet} :
    (sequence (one set :: pieces)).run s k = some t ↔
      ∃ c rest, s.after = c :: rest ∧ set.contains c = true ∧
        (sequence pieces).run ⟨c :: s.before, rest, s.groups⟩ k = some t := by
  rw [run_sequence_cons, run]
  split
  · next hnil => simp [hnil]
  · next c rest hcons => simp only [hcons, Option.ite_none_right_eq_some, exists_next]

theorem run_sets_eq_some {sets : List CharSet} :
    (sequence (sets.map one ++ pieces)).run s k = some t ↔
      ∃ text rest, s.after = text ++ rest ∧ Fits sets text ∧
        (sequence pieces).run ⟨text.reverse ++ s.before, rest, s.groups⟩ k = some t := by
  induction sets generalizing s with
  | nil =>
    constructor
    · exact fun h ↦ ⟨[], s.after, rfl, .nil, h⟩
    · rintro ⟨_, rest, hafter, ⟨⟩, h⟩
      obtain rfl : s.after = rest := hafter
      exact h
  | cons set sets ih =>
    rw [List.map_cons, List.cons_append, run_one_eq_some]
    simp only [ih]
    constructor
    · rintro ⟨c, _, hc, hset, text, rest, rfl, hfits, h⟩
      exact ⟨c :: text, rest, hc, .cons hset hfits, by simpa using h⟩
    · rintro ⟨_, rest, hafter, ⟨⟩ | ⟨hset, hfits⟩, h⟩
      exact ⟨_, _, hafter, hset, _, rest, rfl, hfits, by simpa using h⟩

theorem run_place_eq_some {a : Place} :
    (sequence (place a :: pieces)).run s k = some t ↔
      s.isAt a = true ∧ (sequence pieces).run s k = some t := by
  rw [run_sequence_cons, run]
  split
  · next h => simp [h]
  · next h => simp [h]

/-- A place that is asked for only if `c` holds. -/
theorem run_place_if_eq_some {a : Place} {c : Prop} [Decidable c] :
    (sequence ((if c then [place a] else []) ++ pieces)).run s k = some t ↔
      (c → s.isAt a = true) ∧ (sequence pieces).run s k = some t := by
  by_cases hc : c
  · simp [hc, run_place_eq_some]
  · simp [hc]

/-- A group of one class remembers the character that it takes. -/
theorem run_group_eq_some {index : Nat} {set : CharSet} :
    (sequence (group index (one set) :: pieces)).run s k = some t ↔
      ∃ c rest, s.after = c :: rest ∧ set.contains c = true ∧
        (sequence pieces).run ⟨c :: s.before, rest, (index, [c]) :: s.groups⟩ k = some t := by
  rw [run_sequence_cons, run, run]
  split
  · next hnil => simp [hnil]
  · next c rest hcons =>
    have htext : s.textFrom ⟨c :: s.before, rest, s.groups⟩ = [c] := by simp [Cursor.textFrom]
    simp only [hcons, htext, Option.ite_none_right_eq_some, exists_next]

theorem run_nil_eq_some : (sequence []).run s some = some t ↔ s = t := by
  rw [sequence, run, Option.some.injEq]

/-- The end of the text, if it is asked for. -/
theorem run_textEnd_if_eq_some {c : Prop} [Decidable c] :
    (sequence (if c then [place .textEnd] else [])).run s some = some t ↔
      (c → s.after = []) ∧ s = t := by
  rw [← List.append_nil (if c then _ else _), run_place_if_eq_some, run_nil_eq_some,
    Cursor.isAt, List.isEmpty_iff]

end Run

end Pattern

end Glossopoeia
