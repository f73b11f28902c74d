import Glossopoeia.Pattern.Reader
import Glossopoeia.Pattern.Template

/-!
# Patterns that stand for themselves

A text without metacharacters is the pattern of that text in either dialect (`ofChars_verbatim`),
and a text without a dollar sign is a template that writes just that text.  With both, to replace
all matches is to go through a text from left to right: where the old text follows it is passed over
and the new one written, and elsewhere a character is copied.  `Replaced` says this without places,
groups and fuel, and `replaced_replaceAll` that it is what the matcher does.

Such a replacement can be undone if no character of the new text has been in the text before
(`Replaced.symm`): then the new text begins where it was written and nowhere else.
-/

set_option autoImplicit false

namespace Glossopoeia

/-! ## Reading -/

namespace Pattern

/-- The characters that have a meaning of their own in a pattern. -/
def metacharacters : List Char :=
  ['\\', '.', '+', '*', '?', '(', ')', '|', '[', ']', '{', '}', '^', '$']

/-- Does every character of the text stand for itself? -/
def IsVerbatim (cs : List Char) : Prop := ∀ c ∈ cs, c ∉ metacharacters

instance (cs : List Char) : Decidable (IsVerbatim cs) := List.decidableBAll _ cs

theorem readToken_verbatim {c : Char} (h : c ∉ metacharacters) (dialect : Dialect)
    (repeatable : Bool) (rest : List Char) :
    readToken dialect repeatable (c :: rest) = some (.char c, rest) := by
  simp only [metacharacters, List.mem_cons, not_or] at h
  rw [readToken.eq_def]
  -- All branches but the last are those of a metacharacter.
  split
  all_goals simp_all

theorem tokensFrom_verbatim {cs : List Char} (h : IsVerbatim cs) (dialect : Dialect) {fuel : Nat}
    (hfuel : cs.length ≤ fuel) (repeatable : Bool) :
    tokensFrom dialect fuel repeatable cs = some (cs.map .char) := by
  induction cs generalizing fuel repeatable with
  | nil => cases fuel <;> rfl
  | cons c rest ih =>
    obtain ⟨fuel, rfl⟩ : ∃ n, fuel = n + 1 := ⟨fuel - 1, by simp at hfuel; omega⟩
    obtain ⟨hc, hrest⟩ := List.forall_mem_cons.1 h
    rw [tokensFrom.eq_def]
    dsimp only
    rw [readToken_verbatim hc]
    dsimp only
    rw [ih hrest (by simpa using hfuel)]
    rfl

/-- Reading on from a piece adds the characters as further pieces. -/
theorem foldlM_step_verbatim (dialect : Dialect) (cs : List Char) {r : Reading}
    (hr : r.options = Options.initial) :
    ∃ repeatable, (cs.map Token.char).foldlM (Reading.step dialect) r
      = some { r with
          top := { r.top with pieces := (cs.map char).reverse ++ r.top.pieces }
          repeatable := repeatable } := by
  induction cs generalizing r with
  | nil => exact ⟨r.repeatable, rfl⟩
  | cons c rest ih =>
    have hstep : r.step dialect (.char c) = some (r.push true (char c)) := by
      rw [Reading.step, hr]
      rfl
    obtain ⟨repeatable, hrest⟩ := ih (r := r.push true (char c)) hr
    refine ⟨repeatable, ?_⟩
    rw [List.map_cons, List.foldlM_cons, hstep]
    refine hrest.trans ?_
    rw [List.map_cons, List.reverse_cons, List.append_assoc]
    rfl

/-- **A text without metacharacters is read as the pattern of that text.** -/
theorem ofChars_verbatim (dialect : Dialect) {cs : List Char} (h : IsVerbatim cs) :
    ofChars dialect cs = some (literal cs) := by
  have htokens : tokens dialect cs = some (cs.map .char) :=
    tokensFrom_verbatim h dialect (Nat.le_refl _) false
  obtain ⟨repeatable, hread⟩ := foldlM_step_verbatim dialect cs (r := Reading.start) rfl
  rw [ofChars, htokens, Option.bind_some, ofTokens, hread]
  show some (sequence ((cs.map char).reverse ++ []).reverse) = some (sequence (cs.map char))
  rw [List.append_nil, List.reverse_reverse]

theorem read?_verbatim (dialect : Dialect) {source : String} (h : IsVerbatim source.toList) :
    read? dialect source = some (literal source.toList) := ofChars_verbatim dialect h

end Pattern

/-! ## Templates -/

namespace Template

/-- Does the template write the text, whatever the groups? -/
def Writes (t : Template) (text : List Char) : Prop := ∀ groups, t.fill groups = text

theorem writes_literals (text : List Char) :
    Writes (text.map fun c ↦ .literal [c]) text := by
  intro groups
  rw [fill, List.flatMap_map]
  exact List.flatMap_singleton' text

theorem bracedFrom_verbatim {text : List Char} (h : '$' ∉ text) : bracedFrom none text = text := by
  induction text with
  | nil => rfl
  | cons c rest ih =>
    obtain ⟨hc, hrest⟩ := List.ne_and_not_mem_of_not_mem_cons h
    rw [bracedFrom, if_neg (Ne.symm hc), ih hrest]

theorem ofBraced_verbatim {text : List Char} (h : '$' ∉ text) :
    ofBraced text = text.map fun c ↦ .literal [c] := by
  induction text with
  | nil => rfl
  | cons c rest ih =>
    obtain ⟨hc, hrest⟩ := List.ne_and_not_mem_of_not_mem_cons h
    rw [ofBraced, ih hrest, List.map_cons]
    · rintro _ rfl
      exact absurd rfl hc
    · rintro _ rfl
      exact absurd rfl hc

theorem directFrom_verbatim {text : List Char} (h : '$' ∉ text) :
    directFrom none text = text.map fun c ↦ .literal [c] := by
  induction text with
  | nil => rfl
  | cons c rest ih =>
    obtain ⟨hc, hrest⟩ := List.ne_and_not_mem_of_not_mem_cons h
    rw [directFrom, if_neg (Ne.symm hc), ih hrest, List.map_cons]

/-- A text without a dollar sign is a template of itself in either reading. -/
theorem writes_braced {text : List Char} (h : '$' ∉ text) :
    Writes (ofBraced (braced text)) text := by
  rw [braced, bracedFrom_verbatim h, ofBraced_verbatim h]
  exact writes_literals text

theorem writes_direct {text : List Char} (h : '$' ∉ text) : Writes (direct text) text := by
  rw [direct, directFrom_verbatim h]
  exact writes_literals text

end Template

/-! ## Replaced texts -/

/-- The second text is the first one with the old text replaced by the new one, from left to right:
where the old text follows it is replaced as a whole, and elsewhere a character is kept. -/
inductive Replaced (old new : List Char) : List Char → List Char → Prop
  | nil : Replaced old new [] []
  | found {a b : List Char} (h : Replaced old new a b) : Replaced old new (old ++ a) (new ++ b)
  | kept {c : Char} {a b : List Char} (hc : ¬old <+: c :: a) (h : Replaced old new a b) :
      Replaced old new (c :: a) (c :: b)

namespace Replaced

variable {old new a b : List Char}

theorem mem (h : Replaced old new a b) {c : Char} (hc : c ∈ b) : c ∈ new ∨ c ∈ a := by
  induction h with
  | nil => exact .inr hc
  | found _ ih =>
    rcases List.mem_append.1 hc with hc | hc
    · exact .inl hc
    · exact (ih hc).imp_right (List.mem_append_right _)
  | kept _ _ ih =>
    rcases List.mem_cons.1 hc with rfl | hc
    · exact .inr (List.mem_cons_self ..)
    · exact (ih hc).imp_right (List.mem_cons_of_mem _)

/-- There is one way to replace a text that is not empty. -/
theorem unique (hne : old ≠ []) {b' : List Char} (h : Replaced old new a b)
    (h' : Replaced old new a b') : b = b' := by
  induction h generalizing b' with
  | nil =>
    generalize hx : ([] : List Char) = x at h'
    cases h' with
    | nil => rfl
    | found => exact absurd (List.append_eq_nil_iff.1 hx.symm).1 hne
    | kept => cases hx
  | @found a b _ ih =>
    generalize hx : old ++ a = x at h'
    cases h' with
    | nil => exact absurd (List.append_eq_nil_iff.1 hx).1 hne
    | found h' => rw [ih (List.append_cancel_left hx ▸ h')]
    | kept hc => exact absurd (hx ▸ List.prefix_append old a) hc
  | @kept c a b hc _ ih =>
    generalize hx : c :: a = x at h' hc
    cases h' with
    | nil => cases hx
    | found => exact absurd (List.prefix_append old _) hc
    | kept _ h' =>
      cases hx
      rw [ih h']

/-- **What has been replaced can be replaced back**, if the text before had no character of the new
one. -/
theorem symm (hne : new ≠ []) (hfresh : ∀ c ∈ new, c ∉ a) (h : Replaced old new a b) :
    Replaced new old b a := by
  induction h with
  | nil => exact .nil
  | found _ ih => exact .found (ih fun c hc hmem ↦ hfresh c hc (List.mem_append_right _ hmem))
  | @kept c a b _ _ ih =>
    refine .kept (fun hprefix ↦ ?_) (ih fun d hd hmem ↦ hfresh d hd (List.mem_cons_of_mem _ hmem))
    -- The new text would begin with a character of the text before.
    obtain ⟨d, rest, rfl⟩ := List.exists_cons_of_ne_nil hne
    obtain ⟨rfl, -⟩ := List.cons_prefix_cons.1 hprefix
    exact hfresh d (List.mem_cons_self ..) (List.mem_cons_self ..)

/-- To replace a character by nothing is to leave it out. -/
theorem eq_filter {c : Char} (h : Replaced [c] [] a b) : b = a.filter (· ≠ c) := by
  induction h with
  | nil => rfl
  | found _ ih => simp [ih]
  | @kept d a b hc _ ih =>
    have hne : d ≠ c := fun heq ↦ hc (heq ▸ List.prefix_append [d] a)
    rw [List.filter_cons_of_pos (by simpa using hne), ih]

end Replaced

/-! ## Matching -/

namespace Cursor

theorem skip?_append (before text rest : List Char) (groups : List (Nat × List Char)) :
    (⟨before, text ++ rest, groups⟩ : Cursor).skip? text
      = some ⟨text.reverse ++ before, rest, groups⟩ := by
  induction text generalizing before with
  | nil => rfl
  | cons c text ih =>
    rw [List.cons_append, skip?]
    dsimp only
    rw [if_pos rfl, ih, List.reverse_cons, List.append_assoc]
    rfl

theorem skip?_eq_none {s : Cursor} {text : List Char} (h : ¬text <+: s.after) :
    s.skip? text = none := by
  induction text generalizing s with
  | nil => exact absurd (List.nil_prefix) h
  | cons c text ih =>
    rw [skip?]
    split
    · rfl
    · next d rest hafter =>
      split
      · next hc =>
        refine ih fun hprefix ↦ h ?_
        rw [hafter, hc]
        exact List.cons_prefix_cons.2 ⟨rfl, hprefix⟩
      · rfl

end Cursor

namespace Pattern

theorem run_sequence_cons (p : Pattern) (rest : List Pattern) (s : Cursor) (k : Rest) :
    (sequence (p :: rest)).run s k = p.run s fun t ↦ (sequence rest).run t k := by
  cases rest with
  | nil => rfl
  | cons q rest => rfl

/-- A literal pattern matches where its text follows. -/
theorem run_literal (text : List Char) (s : Cursor) (k : Rest) :
    (literal text).run s k = (s.skip? text).bind k := by
  induction text generalizing s with
  | nil => rfl
  | cons c text ih =>
    have hrest : ∀ t, (sequence (text.map char)).run t k = (t.skip? text).bind k := ih
    rw [literal, List.map_cons, run_sequence_cons, char, run, Cursor.skip?]
    simp only [hrest]
    split
    · rfl
    · next d rest hafter =>
      rw [CharSet.contains_single]
      by_cases hd : d = c
      · rw [if_pos (by simpa using hd), if_pos hd.symm, hd]
      · rw [if_neg (by simpa using hd), if_neg (Ne.symm hd)]
        rfl

theorem run_literal_append (before text rest : List Char) :
    (literal text).run ⟨before, text ++ rest, []⟩ some
      = some ⟨text.reverse ++ before, rest, []⟩ := by
  rw [run_literal, Cursor.skip?_append]
  rfl

theorem run_literal_eq_none {text after : List Char} (h : ¬text <+: after) (before : List Char) :
    (literal text).run ⟨before, after, []⟩ some = none := by
  rw [run_literal, Cursor.skip?_eq_none h]
  rfl

variable {old new : List Char}

/-- If the text is not found, nothing of it is to be replaced. -/
theorem replaced_of_searchFrom_eq_none {before after : List Char}
    (h : (literal old).searchFrom before after = none) : Replaced old new after after := by
  induction after generalizing before with
  | nil => exact .nil
  | cons c rest ih =>
    have hc : ¬old <+: c :: rest := by
      rintro ⟨more, hmore⟩
      rw [searchFrom, ← hmore, run_literal_append] at h
      cases h
    rw [searchFrom, run_literal_eq_none hc] at h
    exact .kept hc (ih h)

/-- If it is found, it is found where it stands first, and what is before it is kept. -/
theorem exists_of_searchFrom_eq_some (hne : old ≠ []) (new : List Char) {before after : List Char}
    {m : Match} (h : (literal old).searchFrom before after = some m) :
    ∃ gap rest, after = gap ++ (old ++ rest) ∧
      m = ⟨⟨gap.reverse ++ before, old ++ rest, []⟩,
        ⟨old.reverse ++ (gap.reverse ++ before), rest, []⟩⟩ ∧
      ∀ b, Replaced old new rest b → Replaced old new after (gap ++ (new ++ b)) := by
  induction after generalizing before with
  | nil =>
    have hc : ¬old <+: [] := fun hprefix ↦ hne (List.prefix_nil.1 hprefix)
    rw [searchFrom, run_literal_eq_none hc] at h
    cases h
  | cons c rest ih =>
    by_cases hc : old <+: c :: rest
    · obtain ⟨more, hmore⟩ := hc
      rw [searchFrom, ← hmore, run_literal_append] at h
      cases h
      exact ⟨[], more, hmore.symm, rfl, fun b hb ↦ hmore ▸ .found hb⟩
    · rw [searchFrom, run_literal_eq_none hc] at h
      obtain ⟨gap, more, rfl, rfl, hreplaced⟩ := ih h
      refine ⟨c :: gap, more, rfl, ?_, fun b hb ↦ .kept hc (hreplaced b hb)⟩
      rw [List.reverse_cons, List.append_assoc]
      rfl

/-- Segments of a text that are copied if they are kept, and written anew if they are found. -/
theorem replaced_flatMap_segmentsFrom (hne : old ≠ []) {write : Segment → List Char}
    (hkept : ∀ text, write (.kept text) = text) (hfound : ∀ m, write (.found m) = new)
    {fuel : Nat} (closed : Bool) (before : List Char) {after : List Char}
    (hfuel : after.length < fuel) :
    Replaced old new after (((literal old).segmentsFrom fuel closed before after).flatMap write) := by
  induction fuel generalizing closed before after with
  | zero => exact absurd hfuel (Nat.not_lt_zero _)
  | succ fuel ih =>
    rw [segmentsFrom]
    dsimp only
    cases hsearch : (literal old).searchFrom before after with
    | none =>
      simp only [List.flatMap_cons, List.flatMap_nil, List.append_nil, hkept]
      exact replaced_of_searchFrom_eq_none hsearch
    | some m =>
      obtain ⟨gap, rest, rfl, rfl, hreplaced⟩ := exists_of_searchFrom_eq_some hne new hsearch
      have hpos := List.length_pos_iff.2 hne
      have hgap : (gap ++ (old ++ rest)).take ((gap.reverse ++ before).length - before.length)
          = gap := by simp
      have hnonempty : Match.isEmpty ⟨⟨gap.reverse ++ before, old ++ rest, []⟩,
          ⟨old.reverse ++ (gap.reverse ++ before), rest, []⟩⟩ = false := by
        simp [Match.isEmpty, Cursor.advanced, hpos]
      have hrest : rest.length < fuel := by
        simp only [List.length_append] at hfuel
        omega
      dsimp only
      rw [hgap, hnonempty]
      simp only [Bool.false_eq_true, if_false, List.flatMap_cons, hkept, hfound]
      exact hreplaced _ (ih true _ hrest)

/-- **To replace the matches of a literal pattern is to replace its text from left to right.** -/
theorem replaced_replaceAll (hne : old ≠ []) {t : Template} (ht : t.Writes new)
    (cs : List Char) : Replaced old new cs ((literal old).replaceAll t cs) :=
  replaced_flatMap_segmentsFrom hne (fun _ ↦ rfl) (fun m ↦ ht m.group?) false []
    (Nat.lt_succ_self _)

end Pattern

end Glossopoeia
