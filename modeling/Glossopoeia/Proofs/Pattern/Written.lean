import Glossopoeia.Proofs.Pattern.Literal

/-!
# Patterns piece by piece

Spelling rules and affixes are compiled to written patterns in the regular dialect, put together
from a few kinds of pieces: characters that stand for themselves, classes, the two anchors and
groups.  A written piece denotes pieces of a pattern if it does so wherever it stands
(`Pattern.Denotes`), so what a text denotes can be read off its parts one after the other, and
`ofChars_of_denotes` says that this is how the reader reads it.

The two passes of the reader are kept apart.  What a text is cut into depends on what follows it,
and `Lexed` is read from right to left; what the tokens mean depends on how many groups have been
opened before, and `Adds` is read from left to right.
-/

set_option autoImplicit false

namespace Glossopoeia.Pattern

/-! ## Tokens -/

/-- The text is cut into these tokens, whatever stands before it. -/
inductive Lexed : List Char → List Token → Prop
  | nil : Lexed [] []
  | cons {cs rest : List Char} {token : Token} {list : List Token}
      (h : ∀ repeatable, readToken .regular repeatable cs = some (token, rest))
      (hlt : rest.length < cs.length) (hrest : Lexed rest list) : Lexed cs (token :: list)

theorem Lexed.tokensFrom_eq {cs : List Char} {list : List Token} (h : Lexed cs list) {fuel : Nat}
    (hfuel : cs.length ≤ fuel) (repeatable : Bool) :
    tokensFrom .regular fuel repeatable cs = some list := by
  induction h generalizing fuel repeatable with
  | nil => cases fuel <;> rfl
  | @cons cs rest token list h hlt _ ih =>
    obtain ⟨fuel, rfl⟩ : ∃ n, fuel = n + 1 := ⟨fuel - 1, by omega⟩
    obtain ⟨c, cs, rfl⟩ := List.exists_cons_of_length_pos (Nat.zero_lt_of_lt hlt)
    rw [tokensFrom.eq_def]
    dsimp only
    rw [h]
    dsimp only
    rw [ih (by omega)]
    rfl

theorem Lexed.tokens_eq {cs : List Char} {list : List Token} (h : Lexed cs list) :
    tokens .regular cs = some list := h.tokensFrom_eq (Nat.le_refl _) false

/-- What a parenthesis opens is remembered unless a question mark follows. -/
theorem readOpening_capture {cs : List Char} (h : cs.head? ≠ some '?') :
    readOpening .regular cs = some (.opening (.capture none), cs) := by
  rw [readOpening.eq_def]
  split
  all_goals simp_all

theorem Lexed.opening {cs : List Char} {list : List Token} (hcs : Lexed cs list)
    (h : cs.head? ≠ some '?') : Lexed ('(' :: cs) (.opening (.capture none) :: list) :=
  .cons (fun _ ↦ readOpening_capture h) (Nat.lt_succ_self _) hcs

theorem Lexed.set {body rest : List Char} {list : List Token} {s : CharSet}
    (hrest : Lexed rest list)
    (h : readClass .regular (body ++ ']' :: rest) = some (s, rest)) :
    Lexed ('[' :: (body ++ ']' :: rest)) (.set s :: list) := by
  refine .cons (fun repeatable ↦ ?_) (by simp; omega) hrest
  rw [readToken, h]
  rfl

/-! ## Pieces -/

/-- What has been read, with further pieces in the alternative in hand. -/
def Reading.extend (r : Reading) (pieces : List Pattern) (opened : Nat) (repeatable : Bool) :
    Reading :=
  { r with
    top := { r.top with pieces := pieces.reverse ++ r.top.pieces }
    opened := opened
    repeatable := repeatable }

/-- Tokens add pieces to what has been read, if `opened` groups have been opened before and
`opened'` after them. -/
def Adds (opened : Nat) (list : List Token) (pieces : List Pattern) (opened' : Nat) : Prop :=
  ∀ r : Reading, r.options = Options.initial → r.opened = opened →
    ∃ repeatable, list.foldlM (Reading.step .regular) r = some (r.extend pieces opened' repeatable)

variable {opened opened' opened'' : Nat} {list more : List Token} {pieces others : List Pattern}

theorem adds_nil (opened : Nat) : Adds opened [] [] opened :=
  fun r _ hopened ↦ ⟨r.repeatable, hopened ▸ rfl⟩

theorem Adds.append (h : Adds opened list pieces opened') (h' : Adds opened' more others opened'') :
    Adds opened (list ++ more) (pieces ++ others) opened'' := by
  intro r hoptions hopened
  obtain ⟨b, hlist⟩ := h r hoptions hopened
  obtain ⟨repeatable, hmore⟩ := h' (r.extend pieces opened' b) hoptions rfl
  refine ⟨repeatable, ?_⟩
  rw [List.foldlM_append, hlist, Option.bind_eq_bind, Option.bind_some, hmore, Reading.extend,
    Reading.extend, Reading.extend, List.reverse_append, List.append_assoc]

/-- A token that stands for one piece adds it. -/
theorem adds_singleton {token : Token} {p : Pattern}
    (h : ∀ r : Reading, r.options = Options.initial →
      ∃ b, r.step .regular token = some (r.push b p))
    (opened : Nat) : Adds opened [token] [p] opened := by
  intro r hoptions hopened
  obtain ⟨b, hstep⟩ := h r hoptions
  refine ⟨b, ?_⟩
  rw [List.foldlM_cons, hstep, ← hopened]
  rfl

/-- Between parentheses the pieces are those of a group. -/
theorem Adds.group (h : Adds (opened + 1) list pieces opened') :
    Adds opened (.opening (.capture none) :: (list ++ [.closing]))
      [Pattern.group (opened + 1) (sequence pieces)] opened' := by
  intro r hoptions hopened
  subst hopened
  let inner : Reading := { r with
    top := Frame.start (.capture none) (r.opened + 1) r.options
    enclosing := r.top :: r.enclosing
    repeatable := false
    opened := r.opened + 1 }
  have hopen : r.step .regular (.opening (.capture none)) = some inner := rfl
  obtain ⟨b, hlist⟩ := h inner hoptions rfl
  refine ⟨true, ?_⟩
  rw [List.foldlM_cons, hopen, Option.bind_eq_bind, Option.bind_some, List.foldlM_append, hlist,
    Option.bind_eq_bind, Option.bind_some, List.foldlM_cons]
  have hpieces : ((inner.extend pieces opened' b).top.pieces).reverse = pieces := by
    simp [Reading.extend, inner, Frame.start]
  have hclose : (inner.extend pieces opened' b).top.close
      = some (Pattern.group (r.opened + 1) (sequence pieces)) := by
    rw [Frame.close, Frame.alternatives, hpieces]
    rfl
  rw [Reading.step, Reading.closeGroup, hclose]
  rfl

/-- What a text adds on its own makes a pattern. -/
theorem Adds.ofTokens_eq (h : Adds 0 list pieces opened) :
    ofTokens .regular list = some (sequence pieces) := by
  obtain ⟨b, hlist⟩ := h Reading.start rfl rfl
  rw [ofTokens, hlist]
  show some (sequence (pieces.reverse ++ []).reverse) = some (sequence pieces)
  rw [List.append_nil, List.reverse_reverse]

/-! ## Written pieces -/

/-- Wherever the text stands, it denotes these pieces, if `opened` groups have been opened before it
and `opened'` after it. -/
def Denotes (opened : Nat) (cs : List Char) (pieces : List Pattern) (opened' : Nat) : Prop :=
  ∃ list, (∀ rest more, Lexed rest more → Lexed (cs ++ rest) (list ++ more)) ∧
    Adds opened list pieces opened'

variable {cs cs' : List Char}

theorem denotes_nil (opened : Nat) : Denotes opened [] [] opened :=
  ⟨[], fun _ _ h ↦ h, adds_nil opened⟩

theorem Denotes.append (h : Denotes opened cs pieces opened')
    (h' : Denotes opened' cs' others opened'') :
    Denotes opened (cs ++ cs') (pieces ++ others) opened'' := by
  obtain ⟨list, hlexed, hadds⟩ := h
  obtain ⟨list', hlexed', hadds'⟩ := h'
  refine ⟨list ++ list', fun rest more hrest ↦ ?_, hadds.append hadds'⟩
  rw [List.append_assoc, List.append_assoc]
  exact hlexed _ _ (hlexed' rest more hrest)

/-- A character that stands for itself. -/
theorem denotes_char {c : Char} (h : c ∉ metacharacters) (opened : Nat) :
    Denotes opened [c] [char c] opened := by
  refine ⟨[.char c], fun rest more hrest ↦ .cons (fun repeatable ↦ ?_) (Nat.lt_succ_self _) hrest,
    adds_singleton (fun r hoptions ↦ ⟨true, ?_⟩) opened⟩
  · exact readToken_verbatim h .regular repeatable rest
  · rw [Reading.step, hoptions]
    rfl

/-- A class. -/
theorem denotes_class {body : List Char} {s : CharSet}
    (h : ∀ rest, readClass .regular (body ++ ']' :: rest) = some (s, rest)) (opened : Nat) :
    Denotes opened ('[' :: (body ++ [']'])) [one s] opened := by
  refine ⟨[.set s], fun rest more hrest ↦ ?_, adds_singleton (fun r hoptions ↦ ⟨true, ?_⟩) opened⟩
  · rw [List.cons_append, List.append_assoc]
    exact hrest.set (h rest)
  · rw [Reading.step, hoptions]
    rfl

/-- The anchor at the start. -/
theorem denotes_caret (opened : Nat) : Denotes opened ['^'] [place .textStart] opened := by
  refine ⟨[.caret], fun rest more hrest ↦ .cons (fun _ ↦ rfl) (Nat.lt_succ_self _) hrest,
    adds_singleton (fun r hoptions ↦ ⟨true, ?_⟩) opened⟩
  rw [Reading.step, hoptions]
  rfl

/-- The anchor at the end. -/
theorem denotes_dollar (opened : Nat) : Denotes opened ['$'] [place .textEnd] opened := by
  refine ⟨[.dollar], fun rest more hrest ↦ .cons (fun _ ↦ rfl) (Nat.lt_succ_self _) hrest,
    adds_singleton (fun r hoptions ↦ ⟨true, ?_⟩) opened⟩
  rw [Reading.step, hoptions]
  rfl

/-- A group, which must not begin with a question mark. -/
theorem Denotes.group (h : Denotes (opened + 1) cs pieces opened')
    (hcs : cs ≠ [] ∧ cs.head? ≠ some '?') :
    Denotes opened ('(' :: (cs ++ [')'])) [Pattern.group (opened + 1) (sequence pieces)]
      opened' := by
  obtain ⟨list, hlexed, hadds⟩ := h
  refine ⟨_, fun rest more hrest ↦ ?_, hadds.group⟩
  have hclosing : Lexed (')' :: rest) (.closing :: more) :=
    .cons (fun _ ↦ rfl) (Nat.lt_succ_self _) hrest
  have hhead : (cs ++ ')' :: rest).head? ≠ some '?' := by
    obtain ⟨c, cs, rfl⟩ := List.exists_cons_of_ne_nil hcs.1
    exact hcs.2
  simpa using (hlexed _ _ hclosing).opening hhead

/-- **A text is read as the sequence of the pieces that it denotes.** -/
theorem ofChars_of_denotes (h : Denotes 0 cs pieces opened) :
    ofChars .regular cs = some (sequence pieces) := by
  obtain ⟨list, hlexed, hadds⟩ := h
  have hlist : Lexed cs list := by simpa using hlexed [] [] .nil
  rw [ofChars, hlist.tokens_eq, Option.bind_some, hadds.ofTokens_eq]

end Glossopoeia.Pattern
