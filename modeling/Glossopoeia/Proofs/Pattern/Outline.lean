import Glossopoeia.Pattern.Reader

/-!
# Patterns without their sets

Whether tokens make a pattern does not depend on the sets of characters in them.  A set is a piece
that a count can repeat and that is one character wide, whichever set it is, and nothing else about
it is ever asked.  So the sets can be forgotten: what the tokens without their sets describe is what
the tokens describe, without its sets (`ofTokens_map_outline`).
-/

set_option autoImplicit false

namespace Glossopoeia.Pattern

variable (dialect : Dialect)

/-! ## Patterns -/

/-- The pattern with its sets forgotten. -/
def outline : Pattern → Pattern
  | empty => empty
  | one _ => one .empty
  | place a => place a
  | seq p q => seq p.outline q.outline
  | alt p q => alt p.outline q.outline
  | group index p => group index p.outline
  | repeated p least most greedy => repeated p.outline least most greedy
  | backreference index => backreference index
  | ahead expected p => ahead expected p.outline
  | behind expected width p => behind expected width p.outline
  | atomic p => atomic p.outline

@[simp] theorem width?_outline (p : Pattern) : p.outline.width? = p.width? := by
  induction p <;> simp_all [outline, width?]

@[simp] theorem isBare_outline (p : Pattern) : p.outline.isBare = p.isBare := by
  cases p <;> rfl

theorem outline_sequence (list : List Pattern) :
    (sequence list).outline = sequence (list.map outline) := by
  induction list with
  | nil => rfl
  | cons p rest ih =>
    cases rest with
    | nil => rfl
    | cons => simp only [sequence, outline, ih, List.map_cons]

theorem outline_choice (list : List Pattern) :
    (choice list).outline = choice (list.map outline) := by
  induction list with
  | nil => rfl
  | cons p rest ih =>
    cases rest with
    | nil => rfl
    | cons => simp only [choice, outline, ih, List.map_cons]

theorem outline_one (o : Options) (s : CharSet) : (o.one s).outline = o.one .empty := by
  simp [Options.one, outline, CharSet.ignoreCase]

theorem mapM_map_outline {f : Pattern → Option Pattern}
    (h : ∀ p, f p.outline = (f p).map outline) (list : List Pattern) :
    (list.map outline).mapM f = (list.mapM f).map (List.map outline) := by
  induction list with
  | nil => rfl
  | cons p rest ih =>
    rw [List.map_cons, List.mapM_cons, List.mapM_cons, ih, h]
    cases f p with
    | none => rfl
    | some q => cases rest.mapM f <;> rfl

theorem lookBehind_map_outline (expected : Bool) (list : List Pattern) :
    lookBehind expected (list.map outline) = (lookBehind expected list).map outline := by
  have hlook (p : Pattern) : (p.outline.width?.map fun n ↦ behind expected n p.outline)
      = (p.width?.map fun n ↦ behind expected n p).map outline := by
    simp [Function.comp_def, outline]
  rw [lookBehind, lookBehind, ← outline_choice, width?_outline, mapM_map_outline hlook]
  cases (choice list).width? with
  | some n => rfl
  | none =>
    cases list.mapM (fun p : Pattern ↦ p.width?.map fun n ↦ behind expected n p) with
    | none => rfl
    | some looks => cases expected <;> simp [outline_choice, outline_sequence]

/-! ## Frames -/

/-- The group with the sets in it forgotten. -/
def Frame.outline (f : Frame) : Frame :=
  { f with branches := f.branches.map Pattern.outline, pieces := f.pieces.map Pattern.outline }

namespace Frame

@[simp] theorem what_outline (f : Frame) : f.outline.what = f.what := rfl

@[simp] theorem outer_outline (f : Frame) : f.outline.outer = f.outer := rfl

@[simp] theorem pieces_outline (f : Frame) :
    f.outline.pieces = f.pieces.map Pattern.outline := rfl

theorem push_outline (f : Frame) (p : Pattern) :
    f.outline.push p.outline = (f.push p).outline := rfl

theorem alternatives_outline (f : Frame) :
    f.outline.alternatives = f.alternatives.map Pattern.outline := by
  simp [alternatives, outline, outline_sequence]

theorem close_outline (f : Frame) : f.outline.close = f.close.map Pattern.outline := by
  simp only [close, alternatives_outline, ← outline_choice, what_outline]
  cases f.what with
  | behind expected => exact lookBehind_map_outline expected f.alternatives
  | _ => rfl

theorem repeatable_outline (f : Frame) : f.outline.repeatable dialect = f.repeatable dialect := by
  simp only [repeatable, alternatives_outline, ← outline_choice, isBare_outline, what_outline]

end Frame

/-! ## Tokens -/

/-- The token with its set forgotten.  A character that stands for itself is a set too. -/
def Token.outline : Token → Token
  | char _ => set .empty
  | set _ => set .empty
  | any => set .empty
  | token => token

theorem Token.endsAtom_outline (token : Token) : token.outline.endsAtom = token.endsAtom := by
  cases token <;> rfl

/-- What has been read, with the sets in it forgotten. -/
def Reading.outline (r : Reading) : Reading :=
  { r with top := r.top.outline, enclosing := r.enclosing.map Frame.outline }

namespace Reading

theorem push_outline (r : Reading) (repeatable : Bool) (p : Pattern) :
    r.outline.push repeatable p.outline = (r.push repeatable p).outline := rfl

theorem openGroup_outline (r : Reading) (what : Opening) :
    r.outline.openGroup dialect what = (r.openGroup dialect what).map outline := by
  cases what with
  | capture name =>
    cases name with
    | none => rfl
    | some name =>
      simp only [openGroup]
      show (if dialect = .regular && (r.names.lookup name).isSome then none else some _) = _
      split <;> rfl
  | _ => rfl

theorem closeGroup_outline (r : Reading) :
    r.outline.closeGroup dialect = (r.closeGroup dialect).map outline := by
  simp only [closeGroup, outline, Frame.close_outline]
  cases r.enclosing with
  | nil => rfl
  | cons outer rest =>
    cases r.top.close with
    | none => rfl
    | some p => simp [outline, Frame.repeatable_outline, Frame.push_outline]

theorem repeatLast_outline (r : Reading) (n : Count) :
    r.outline.repeatLast dialect n = (r.repeatLast dialect n).map outline := by
  simp only [repeatLast, outline, Frame.pieces_outline]
  cases r.repeatable with
  | false => rfl
  | true =>
    cases r.top.pieces with
    | nil => rfl
    | cons p rest =>
      simp only [List.map_cons]
      split
      · rfl
      · cases n.possessive <;> rfl

/-- A character or a set is one more piece. -/
theorem step_outline_one (r : Reading) (s : CharSet) :
    some (r.outline.push true (r.outline.options.one .empty))
      = some (r.push true (r.options.one s)).outline := by
  rw [← push_outline, outline_one]
  rfl

/-- Forgetting the sets does not change how a token is taken. -/
theorem step_outline (r : Reading) (token : Token) :
    r.outline.step dialect token.outline = (r.step dialect token).map outline := by
  cases token with
  | char c => exact r.step_outline_one (.single c)
  | set s => exact r.step_outline_one s
  | any =>
    have hempty : r.outline.options.one .empty = one .empty := by
      simp [Options.one, CharSet.ignoreCase]
    exact congrArg (fun p ↦ some (r.outline.push true p)) hempty
  | backreference n =>
    show (if n ≤ r.opened then some _ else none)
      = Option.map outline (if n ≤ r.opened then some _ else none)
    split <;> rfl
  | namedBackreference name =>
    show (r.names.lookup name).map _ = ((r.names.lookup name).map _).map outline
    cases r.names.lookup name <;> rfl
  | opening what => exact r.openGroup_outline dialect what
  | closing => exact r.closeGroup_outline dialect
  | bar =>
    have hpieces : sequence (r.top.pieces.map Pattern.outline).reverse
        = (sequence r.top.pieces.reverse).outline := by
      rw [outline_sequence, List.map_reverse]
    show some (Reading.mk ⟨_, _, _, sequence (r.top.pieces.map Pattern.outline).reverse :: _, _⟩
      _ _ _ _ _ _) = _
    rw [hpieces]
    rfl
  | count n => exact r.repeatLast_outline dialect n
  | _ => rfl

theorem foldlM_step_outline (list : List Token) (r : Reading) :
    (list.map Token.outline).foldlM (step dialect) r.outline
      = (list.foldlM (step dialect) r).map outline := by
  induction list generalizing r with
  | nil => rfl
  | cons token rest ih =>
    rw [List.map_cons, List.foldlM_cons, List.foldlM_cons, step_outline]
    cases r.step dialect token with
    | none => rfl
    | some r => exact ih r

theorem finish_outline (r : Reading) : r.outline.finish = r.finish.map Pattern.outline := by
  rw [finish, finish]
  show (if (r.enclosing.map Frame.outline).isEmpty && _ then
    some (choice r.top.outline.alternatives) else none) = _
  rw [Frame.alternatives_outline, ← outline_choice, List.isEmpty_map]
  show (if r.enclosing.isEmpty && !(r.recalled && !r.names.isEmpty) then _ else _) = _
  split <;> rfl

end Reading

/-- **Tokens without their sets describe the pattern without its sets.** -/
theorem ofTokens_map_outline (list : List Token) :
    ofTokens dialect (list.map Token.outline) = (ofTokens dialect list).map outline := by
  rw [ofTokens, ofTokens]
  show ((list.map Token.outline).foldlM (Reading.step dialect) Reading.start.outline).bind _ = _
  rw [Reading.foldlM_step_outline]
  cases list.foldlM (Reading.step dialect) Reading.start with
  | none => rfl
  | some r => exact r.finish_outline

/-- Tokens that differ only in their sets make patterns together. -/
theorem isSome_ofTokens_congr {list list' : List Token}
    (h : list.map Token.outline = list'.map Token.outline) :
    (ofTokens dialect list).isSome = (ofTokens dialect list').isSome := by
  have heq := congrArg (ofTokens dialect) h
  rw [ofTokens_map_outline, ofTokens_map_outline] at heq
  simpa using congrArg Option.isSome heq

end Glossopoeia.Pattern
