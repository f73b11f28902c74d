import Glossopoeia.Proofs.Pattern.Fillings

/-!
# Class letters within a class

The readers of the pieces that a class is made of, apart from class letters: the name of an ASCII
class and the operators between lists agree whatever is put in place of the letters behind
(`agrees_readAsciiClass`, `agrees_readOperator`), and so does what a class begins with
(`openClass_put`).  An item or a range is read the same with the classes if it is read with the
letters and with blanks (`transfers_readClassRange`): blanks are no end of a range.
-/

set_option autoImplicit false

namespace Glossopoeia.Pattern

open Text Phonology Filling

variable {cs : List Char}

/-! ## ASCII classes -/

/-- The ASCII classes are named in lower case. -/
theorem le_of_asciiSet {name : List Char} {set : CharSet} (h : asciiSet name = some set) :
    ∀ c ∈ name, 'a' ≤ c ∧ c ≤ 'z' := by
  obtain ⟨ranges, hlookup, -⟩ := Option.map_eq_some_iff.1 h
  obtain ⟨before, after, heq, -⟩ := List.lookup_eq_some_iff.1 hlookup
  have hall : ∀ entry ∈ before ++ (String.ofList name, ranges) :: after,
      entry.1.toList.all (fun c ↦ 'a' ≤ c && c ≤ 'z') = true := by
    rw [← heq]
    decide
  simpa using hall (String.ofList name, ranges) (by simp)

theorem notMem_of_asciiSet {name : List Char} {set : CharSet} (h : asciiSet name = some set) :
    ∀ d ∈ heads, d ∉ name := by
  have hnot {d : Char} (hd : ¬('a' ≤ d ∧ d ≤ 'z')) : d ∉ name := fun hmem ↦
    hd (le_of_asciiSet h d hmem)
  exact forall_mem_heads.2 ⟨hnot (by decide), hnot (by decide), hnot (by decide),
    hnot (by decide)⟩

/-- Read the name of an ASCII class and what closes it. -/
def readAsciiName (negated : Bool) (cs : List Char) : Option (CharSet × List Char) := do
  let (name, rest) ← cut ':' cs
  let s ← asciiSet name
  match rest with
  | ']' :: rest => some (complementIf negated s, rest)
  | _ => none

theorem readAsciiClass_eq (cs : List Char) :
    readAsciiClass cs =
      if cs.head? = some ':' then
        if cs.tail.head? = some '^' then readAsciiName true cs.tail.tail
        else readAsciiName false cs.tail
      else none := by
  rw [readAsciiClass.eq_def]
  split
  · next rest =>
    rw [List.head?_cons, if_pos rfl, List.tail_cons]
    split
    next heq =>
    split at heq
    · cases heq
      rfl
    · next hcaret =>
      cases heq
      rw [if_neg (head?_ne hcaret)]
      rfl
  · next hcolon => rw [if_neg (head?_ne hcolon)]

theorem agrees_readAsciiName (negated : Bool) (cs : List Char) :
    Agrees (readAsciiName negated) cs := by
  intro f s q h
  simp only [readAsciiName, Option.bind_eq_bind, Option.bind_eq_some_iff] at h
  obtain ⟨⟨name, q'⟩, hcut, set, hset, hclose⟩ := h
  obtain ⟨rest, hsuffix, hall⟩ := cut_put (by decide) hcut fun c hc head hhead ↦ by
    obtain ⟨head', tail, htext, hhead'⟩ := f.exists_text_eq hc
    obtain rfl : head' = head := by simpa [htext] using hhead
    exact notMem_of_asciiSet hset _ hhead'
  obtain rfl : f.put rest = q' := by simpa [hcut] using (hall f).symm
  split at hclose
  · next q heq =>
    cases hclose
    obtain ⟨rest, rfl, -⟩ := f.exists_eq_cons (by decide) heq
    refine ⟨rest, (List.suffix_cons ..).trans hsuffix, fun g ↦ ?_⟩
    rw [readAsciiName, hall g, put_cons g rfl]
    simp [hset]
  · cases hclose

theorem agrees_readAsciiClass (cs : List Char) : Agrees readAsciiClass cs := by
  intro f s q h
  by_cases hcolon : cs.head? = some ':'
  · have hread (g : Filling) : readAsciiClass (g.put cs) =
        if cs.tail.head? = some '^' then readAsciiName true (g.put cs.tail.tail)
        else readAsciiName false (g.put cs.tail) := by
      rw [readAsciiClass_eq, if_pos ((g.head?_put (by decide)).2 hcolon),
        tail_put _ (by decide) hcolon]
      by_cases hcaret : cs.tail.head? = some '^'
      · rw [if_pos ((g.head?_put (by decide)).2 hcaret), if_pos hcaret,
          tail_put _ (by decide) hcaret]
      · rw [if_neg fun hhead ↦ hcaret ((g.head?_put (by decide)).1 hhead), if_neg hcaret]
    simp only [hread] at h ⊢
    split at h
    · next hcaret =>
      simp only [if_pos hcaret]
      obtain ⟨rest, hsuffix, hall⟩ := agrees_readAsciiName true _ f s q h
      exact ⟨rest, hsuffix.trans ((List.tail_suffix _).trans (List.tail_suffix _)), hall⟩
    · next hcaret =>
      simp only [if_neg hcaret]
      obtain ⟨rest, hsuffix, hall⟩ := agrees_readAsciiName false _ f s q h
      exact ⟨rest, hsuffix.trans (List.tail_suffix _), hall⟩
  · rw [readAsciiClass_eq, if_neg fun hhead ↦ hcolon ((f.head?_put (by decide)).1 hhead)] at h
    cases h

/-! ## The start of a class -/

/-- What the text after an opening bracket says at its start, once a caret has been read. -/
def openList (cs : List Char) : ClassSoFar × List Char :=
  match cs with
  | ']' :: rest => (ClassSoFar.start.add (.single ']'), rest)
  | '-' :: rest => (ClassSoFar.start.add (.single '-'), rest.dropWhile (· == '-'))
  | rest => (ClassSoFar.start, rest)

theorem openClass_eq (cs : List Char) :
    openClass cs =
      if cs.head? = some '^' then (true, openList cs.tail) else (false, openList cs) := by
  have hlist (negated : Bool) (rest : List Char) : (match rest with
      | ']' :: rest => (negated, ClassSoFar.start.add (.single ']'), rest)
      | '-' :: rest =>
        (negated, ClassSoFar.start.add (.single '-'), rest.dropWhile (· == '-'))
      | rest => (negated, ClassSoFar.start, rest)) = (negated, openList rest) := by
    rw [openList.eq_def]
    split <;> rfl
  rw [openClass.eq_def]
  split
  next heq =>
  split at heq
  · cases heq
    exact hlist true _
  · next hcaret =>
    cases heq
    rw [if_neg (head?_ne hcaret)]
    exact hlist false _

theorem openList_put (f : Filling) (cs : List Char) :
    openList (f.put cs) = ((openList cs).1, f.put (openList cs).2) := by
  by_cases hclosing : cs.head? = some ']'
  · obtain ⟨rest, rfl⟩ := List.head?_eq_some_iff.1 hclosing
    rw [put_cons f rfl]
    rfl
  by_cases hhyphen : cs.head? = some '-'
  · obtain ⟨rest, rfl⟩ := List.head?_eq_some_iff.1 hhyphen
    have hdrop := (f.takeWhile_put (p := (· == '-')) (forall_mem_heads.2 (by decide)) rest).2
    rw [put_cons f rfl]
    exact congrArg (Prod.mk _) hdrop
  · have hother {cs : List Char} (hclosing : cs.head? ≠ some ']') (hhyphen : cs.head? ≠ some '-') :
        openList cs = (ClassSoFar.start, cs) := by
      rw [openList.eq_def]
      split <;> simp_all
    rw [hother hclosing hhyphen, hother]
    · exact fun hhead ↦ hclosing ((f.head?_put (by decide)).1 hhead)
    · exact fun hhead ↦ hhyphen ((f.head?_put (by decide)).1 hhead)

theorem openClass_put (f : Filling) (cs : List Char) :
    openClass (f.put cs)
      = ((openClass cs).1, (openClass cs).2.1, f.put (openClass cs).2.2) := by
  by_cases hcaret : cs.head? = some '^'
  · rw [openClass_eq, openClass_eq, if_pos ((f.head?_put (by decide)).2 hcaret), if_pos hcaret,
      tail_put _ (by decide) hcaret, openList_put]
  · rw [openClass_eq, openClass_eq, if_neg fun hhead ↦ hcaret ((f.head?_put (by decide)).1 hhead),
      if_neg hcaret, openList_put]

theorem openClass_suffix (cs : List Char) : (openClass cs).2.2 <:+ cs := by
  have hlist (cs : List Char) : (openList cs).2 <:+ cs := by
    rw [openList.eq_def]
    split
    · exact List.suffix_cons ..
    · exact (List.dropWhile_suffix _).trans (List.suffix_cons ..)
    · exact List.suffix_refl _
  rw [openClass_eq]
  split
  · exact (hlist _).trans (List.tail_suffix _)
  · exact hlist _

/-! ## Operators -/

/-- The operator that a character stands for if it comes twice. -/
def operatorOf? : Char → Option ClassOp
  | '&' => some .inter
  | '-' => some .diff
  | '~' => some .symmDiff
  | _ => none

/-- Read an operator between two lists of a class. -/
def readOperator : List Char → Option (ClassOp × List Char)
  | c :: d :: rest => if c = d then (operatorOf? c).map (·, rest) else none
  | _ => none

theorem readClassBody_cons (dialect : Dialect) (fuel : Nat) (so : ClassSoFar) (c : Char)
    (cs : List Char) :
    readClassBody dialect (fuel + 1) so (c :: cs) =
      if c = ']' then some (so.value, cs)
      else if c = '[' then
        match readAsciiClass cs with
        | some (s, rest) => readClassBody dialect fuel (so.add s) rest
        | none =>
          (readClassBody dialect fuel (openClass cs).2.1 (openClass cs).2.2).bind fun (s, rest) ↦
            readClassBody dialect fuel (so.add (complementIf (openClass cs).1 s)) rest
      else
        match readOperator (c :: cs) with
        | some (op, rest) => readClassBody dialect fuel (so.operate op) rest
        | none =>
          (readClassRange dialect (c :: cs)).bind fun (s, rest) ↦
            readClassBody dialect fuel (so.add s) rest := by
  rw [readClassBody.eq_def]
  dsimp only
  split
  · next heq => cases heq
  · next heq =>
    cases heq
    rfl
  · next heq =>
    cases heq
    rw [if_neg (by decide), if_pos rfl]
    cases readAsciiClass _ with
    | some found => rfl
    | none =>
      dsimp only
      split <;> simp_all
  · next heq =>
    cases heq
    rfl
  · next heq =>
    cases heq
    rfl
  · next heq =>
    cases heq
    rfl
  · next hclosing hopening hinter hdiff hsymm =>
    have hoperator : readOperator (c :: cs) = none := by
      cases cs with
      | nil => rfl
      | cons d cs =>
        by_cases heq : c = d
        · subst heq
          rw [readOperator, if_pos rfl, operatorOf?.eq_def]
          split <;> simp_all
        · rw [readOperator, if_neg heq]
    rw [if_neg (by rintro rfl; exact hclosing _ rfl), if_neg (by rintro rfl; exact hopening _ rfl),
      hoperator]
    dsimp only
    split <;> simp_all

theorem operatorOf?_eq_none {c : Char} (hc : c ∈ heads) : operatorOf? c = none := by
  revert c
  rw [forall_mem_heads]
  exact ⟨rfl, rfl, rfl, rfl⟩

theorem readOperator_eq_none {c : Char} (hc : c ∈ heads) (cs : List Char) :
    readOperator (c :: cs) = none := by
  cases cs <;> simp [readOperator, operatorOf?_eq_none hc]

theorem agrees_readOperator (c : Char) (cs : List Char) :
    Agrees (fun cs ↦ readOperator (c :: cs)) cs := by
  intro f op q h
  dsimp only at h ⊢
  cases cs with
  | nil => cases h
  | cons d cs =>
    cases hd : isClassLetter d with
    | true =>
      obtain ⟨head, tail, hput, hhead⟩ := f.exists_put_letter_cons hd cs
      rw [hput, readOperator] at h
      split at h
      · next heq => simp [heq, operatorOf?_eq_none hhead] at h
      · cases h
    | false =>
      simp only [put_cons _ hd, readOperator] at h ⊢
      split at h
      · next heq =>
        simp only [Option.map_eq_some_iff, Prod.mk.injEq] at h
        obtain ⟨op, hop, rfl, -⟩ := h
        exact ⟨cs, List.suffix_cons .., fun g ↦ by rw [if_pos heq, hop]; rfl⟩
      · cases h

/-! ## Items and ranges -/

/-- The item of a class that an escape is. -/
def Escape.item? : Escape → Option (Char ⊕ CharSet)
  | char c => some (.inl c)
  | set s => some (.inr s)
  | _ => none

/-- The set of an item that stands alone. -/
def itemSet : Char ⊕ CharSet → CharSet
  | .inl c => .single c
  | .inr s => s

/-- What is read of a range behind its first character, or of a single item. -/
def rangeAfter (dialect : Dialect) (first : Char ⊕ CharSet) (cs : List Char) :
    Option (CharSet × List Char) :=
  match cs with
  | '-' :: next :: _ =>
    if next == ']' || next == '-' then some (itemSet first, cs)
    else
      match first, readClassItem dialect (cs.drop 1) with
      | .inl c, some (.inl d, rest) => if c ≤ d then some (.range c d, rest) else none
      | _, _ => none
  | _ => some (itemSet first, cs)

theorem readClassRange_eq (dialect : Dialect) (cs : List Char) :
    readClassRange dialect cs =
      (readClassItem dialect cs).bind fun (first, rest) ↦ rangeAfter dialect first rest := rfl

/-- Does the text go on with a hyphen and the other end of a range? -/
def OpensRange (cs : List Char) : Prop :=
  ∃ next rest, cs = '-' :: next :: rest ∧ next ≠ ']' ∧ next ≠ '-'

theorem rangeAfter_of_not {dialect : Dialect} (h : ¬OpensRange cs) (first : Char ⊕ CharSet) :
    rangeAfter dialect first cs = some (itemSet first, cs) := by
  unfold rangeAfter
  split
  · next next rest =>
    refine if_pos (by_contra fun hnext ↦ h ⟨next, rest, rfl, ?_⟩)
    simpa using hnext
  · rfl

theorem rangeAfter_inr {dialect : Dialect} (h : OpensRange cs) (s : CharSet) :
    rangeAfter dialect (.inr s) cs = none := by
  obtain ⟨next, rest, rfl, hclosing, hhyphen⟩ := h
  simp [rangeAfter, hclosing, hhyphen]

/-- The range up to a character that is not less than its first. -/
def rangeTo? (first : Char) : Char ⊕ CharSet → Option CharSet
  | .inl last => if first ≤ last then some (.range first last) else none
  | .inr _ => none

theorem rangeAfter_inl {dialect : Dialect} {first next : Char} {cs : List Char}
    (h : next ≠ ']' ∧ next ≠ '-') :
    rangeAfter dialect (.inl first) ('-' :: next :: cs) =
      (readClassItem dialect (next :: cs)).bind fun (last, rest) ↦
        (rangeTo? first last).map (·, rest) := by
  simp only [rangeAfter, List.drop_succ_cons, List.drop_zero, beq_eq_false_iff_ne.2 h.1,
    beq_eq_false_iff_ne.2 h.2, Bool.or_self, Bool.false_eq_true, if_false]
  cases readClassItem dialect (next :: cs) with
  | none => rfl
  | some found =>
    obtain ⟨last | s, rest⟩ := found
    · simp only [Option.bind_some, rangeTo?]
      split <;> rfl
    · rfl

theorem opensRange_put (f : Filling) (cs : List Char) : OpensRange (f.put cs) ↔ OpensRange cs := by
  by_cases hhyphen : cs.head? = some '-'
  · obtain ⟨cs, rfl⟩ := List.head?_eq_some_iff.1 hhyphen
    have hiff (cs : List Char) : OpensRange ('-' :: cs) ↔
        cs ≠ [] ∧ cs.head? ≠ some ']' ∧ cs.head? ≠ some '-' := by
      cases cs <;> simp [OpensRange]
    have hnil : f.put cs = [] ↔ cs = [] := by
      cases cs with
      | nil => simp
      | cons c cs =>
        cases hc : isClassLetter c with
        | true =>
          obtain ⟨head, tail, hput, -⟩ := f.exists_put_letter_cons hc cs
          simp [hput]
        | false => simp [put_cons f hc]
    have hclosing : (f.put cs).head? = some ']' ↔ cs.head? = some ']' := f.head?_put (by decide)
    have hhyphen : (f.put cs).head? = some '-' ↔ cs.head? = some '-' := f.head?_put (by decide)
    rw [put_cons f rfl, hiff, hiff, ne_eq, ne_eq, ne_eq, hnil, hclosing, hhyphen]
  · refine iff_of_false ?_ ?_
    · rintro ⟨next, rest, heq, -⟩
      exact hhyphen ((f.head?_put (by decide)).1 (congrArg List.head? heq))
    · rintro ⟨next, rest, rfl, -⟩
      exact hhyphen rfl

/-- What follows the first character of an item. -/
theorem transfers_readClassItem (c : Char) (cs : List Char) :
    Transfers (fun cs ↦ readClassItem .extended (c :: cs)) cs := by
  by_cases hbackslash : c = '\\'
  · subst hbackslash
    have hread (cs : List Char) : readClassItem .extended ('\\' :: cs) =
        (readEscape .extended true cs).bind fun found ↦ (found.1.item?).map (·, found.2) := by
      rw [readClassItem]
      cases readEscape .extended true cs with
      | none => rfl
      | some found =>
        obtain ⟨e, rest⟩ := found
        cases e <;> rfl
    exact ((transfers_readEscape true cs).bind fun e rest _ ↦
      transfers_map_const e.item? rest).congr hread
  · exact (transfers_map_const (some (.inl c)) cs).congr fun rest ↦
      readClassItem_cons hbackslash rest

theorem transfers_rangeAfter (first : Char ⊕ CharSet) (cs : List Char) :
    Transfers (rangeAfter .extended first) cs := by
  intro s q h hself
  by_cases hrange : OpensRange cs
  · cases first with
    | inr s =>
      rw [rangeAfter_inr ((opensRange_put _ cs).2 hrange)] at h
      cases h
    | inl first =>
      obtain ⟨next, cs, rfl, hnext⟩ := hrange
      cases hc : isClassLetter next with
      | true =>
        -- The escape for a blank is no end of a range.
        have hput : blanks.put ('-' :: next :: cs) = '-' :: '\\' :: 's' :: blanks.put cs := by
          rw [put_cons _ rfl, put_letter_cons _ hc]
          rfl
        rw [hput, rangeAfter_inl (by decide)] at h
        cases h
      | false =>
        have hput (f : Filling) : f.put ('-' :: next :: cs) = '-' :: next :: f.put cs := by
          rw [put_cons _ rfl, put_cons _ hc]
        have hrange := (transfers_readClassItem next cs).bind fun last rest _ ↦
          transfers_map_const (rangeTo? first last) rest
        simp only [hput, rangeAfter_inl hnext] at h hself ⊢
        obtain ⟨rest, hsuffix, hall⟩ := hrange s q h hself
        exact ⟨rest, (hsuffix.trans (List.suffix_cons ..)).trans (List.suffix_cons ..), hall⟩
  · have hread (f : Filling) : rangeAfter .extended first (f.put cs)
        = some (itemSet first, f.put cs) :=
      rangeAfter_of_not (fun h ↦ hrange ((opensRange_put f cs).1 h)) first
    obtain ⟨rfl, -⟩ := Prod.mk.inj (Option.some.inj ((hread _).symm.trans h))
    exact ⟨cs, List.suffix_refl cs, hread⟩

/-- What follows the first character of an item or a range. -/
theorem transfers_readClassRange (c : Char) (cs : List Char) :
    Transfers (fun cs ↦ readClassRange .extended (c :: cs)) cs :=
  ((transfers_readClassItem c cs).bind fun first rest _ ↦ transfers_rangeAfter first rest).congr
    fun rest ↦ readClassRange_eq .extended (c :: rest)

end Glossopoeia.Pattern
