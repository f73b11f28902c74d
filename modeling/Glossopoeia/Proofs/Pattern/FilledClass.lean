import Glossopoeia.Proofs.Pattern.FilledItem
import Glossopoeia.Proofs.Pattern.Outline

/-!
# Classes in place of letters within a class

With the classes in place of the letters, a class of a pattern may have further classes in it.  The
class of a language is a set like any other there (`readClassBody_text`), even where its first
characters happen to name an ASCII class.  So the body of a class is read up to the same bracket as
before (`readsBody`), by induction on the rounds of the reader, and with it the whole class
(`readClass_put`).  The set that is read may be any.
-/

set_option autoImplicit false

namespace Glossopoeia.Pattern

open Text Phonology Phonology.SoundClass Filling

variable {cs : List Char}

/-! ## A class within a class -/

/-- In a list a closing bracket stands behind a backslash. -/
theorem exists_of_escaped_eq_append {front back : List Char}
    (h : escaped cs = front ++ ']' :: back) : ∃ front', front = front' ++ ['\\'] := by
  induction cs generalizing front with
  | nil => simp [escaped] at h
  | cons c cs ih =>
    rw [escaped_cons] at h
    split at h
    · cases front with
      | nil => cases h
      | cons d front =>
        obtain ⟨rfl, htail⟩ := List.cons.inj h
        cases front with
        | nil => exact ⟨[], rfl⟩
        | cons e front =>
          obtain ⟨front', rfl⟩ := ih (List.cons.inj htail).2
          exact ⟨'\\' :: e :: front', rfl⟩
    · next hc =>
      cases front with
      | nil =>
        obtain ⟨rfl, -⟩ := List.cons.inj h
        exact absurd rfl hc
      | cons d front =>
        obtain ⟨-, h⟩ := List.cons.inj h
        obtain ⟨front', rfl⟩ := ih h
        exact ⟨d :: front', rfl⟩

/-- If a list happens to name an ASCII class, it is the whole list that does. -/
theorem eq_of_readAsciiClass_escaped {set : CharSet} {more rest : List Char}
    (h : readAsciiClass (escaped cs ++ ']' :: more) = some (set, rest)) : rest = more := by
  rw [readAsciiClass_eq] at h
  split at h
  · next hcolon =>
    cases cs with
    | nil => cases hcolon
    | cons c cs =>
      obtain ⟨text, htext⟩ := List.head?_eq_some_iff.1 hcolon
      obtain ⟨rfl, hc⟩ : c = ':' ∧ isSpecial c = false := by
        rw [escaped_cons] at htext
        split at htext
        · cases (List.cons.inj htext).1
        · obtain ⟨rfl, -⟩ := List.cons.inj htext
          exact ⟨rfl, rfl⟩
      have htail : (escaped (':' :: cs) ++ ']' :: more).tail = escaped cs ++ ']' :: more := rfl
      rw [htail, if_neg (head?_escaped_append more rfl (by decide) (.inl (by decide))),
        readAsciiName] at h
      simp only [Option.bind_eq_bind, Option.bind_eq_some_iff] at h
      obtain ⟨⟨name, q⟩, hcut, set, hset, hclose⟩ := h
      have hname {d : Char} (hd : ¬('a' ≤ d ∧ d ≤ 'z')) : d ∉ name := fun hmem ↦
        hd (le_of_asciiSet hset d hmem)
      split at hclose
      · next q heq =>
        cases hclose
        obtain rfl : _ = ']' :: rest := heq
        rcases List.append_eq_append_iff.1 (cut_eq_some_iff.1 hcut).1 with
          ⟨back, rfl, hback⟩ | ⟨back, hlist, hback⟩
        · -- The name does not reach beyond the list.
          cases back with
          | nil => cases hback
          | cons d back =>
            obtain ⟨rfl, -⟩ := List.cons.inj hback
            exact absurd (List.mem_append_right _ (List.mem_cons_self ..)) (hname (by decide))
        · cases back with
          | nil => cases hback
          | cons d back =>
            obtain ⟨hd, hback⟩ := List.cons.inj hback
            cases back with
            | nil => exact (List.cons.inj hback).2
            | cons e back =>
              obtain rfl : ']' = e := (List.cons.inj hback).1
              subst hd
              obtain ⟨front', hfront⟩ :=
                @exists_of_escaped_eq_append cs (name ++ [':']) _ (by simpa using hlist)
              have := congrArg List.getLast? hfront
              simp at this
      · cases hclose
  · cases h

/-- What is put in place of a class letter is a set within a class, too. -/
theorem readClassBody_text {s : SoundClass} (hs : s.vowelChars ≠ []) (c : Char) (more : List Char) :
    ∃ set, ∀ so fuel, ((classes s).text c ++ more).length ≤ fuel →
      readClassBody .extended (fuel + 1) so ((classes s).text c ++ more)
        = readClassBody .extended fuel (so.add set) more := by
  have hlist {cs : List Char} {fuel : Nat} (hfuel : (escaped cs).length < fuel) :
      readClassBody .extended fuel ClassSoFar.start (escaped cs ++ ']' :: more)
        = some (.ofChars cs, more) :=
    readClassBody_escaped (Nat.lt_of_le_of_lt (length_le_length_escaped cs) hfuel) .empty more
  rw [text]
  split
  · have hne := s.vowelChars_ne_nil_iff.1 hs
    refine ⟨complementIf true (.ofChars s.excludedChars), fun so fuel hfuel ↦ ?_⟩
    have hopen := (openClass_of_head?
      (head?_escaped_append more rfl (by decide) (.inr hne))
      (head?_escaped_append more rfl (by decide) (.inl (by decide)))).1
    rw [s.consonant_eq] at hfuel ⊢
    simp only [List.cons_append, List.append_assoc, List.nil_append, List.length_cons,
      List.length_append] at hfuel ⊢
    rw [readClassBody_cons, if_neg (by decide), if_pos rfl]
    have hascii : readAsciiClass ('^' :: (escaped s.excludedChars ++ ']' :: more)) = none := rfl
    rw [hascii, hopen]
    dsimp only
    rw [hlist (by omega)]
    rfl
  · have hopen := (openClass_of_head?
      (head?_escaped_append more rfl (by decide) (.inr hs))
      (head?_escaped_append more rfl (by decide) (.inl (by decide)))).2
      (head?_escaped_append more rfl (by decide) (.inl (by decide)))
    rw [s.vowel_eq]
    simp only [List.cons_append, List.append_assoc, List.nil_append, List.length_cons,
      List.length_append]
    cases hascii : readAsciiClass (escaped s.vowelChars ++ ']' :: more) with
    | some found =>
      obtain ⟨set, rest⟩ := found
      obtain rfl := eq_of_readAsciiClass_escaped hascii
      refine ⟨set, fun so fuel _ ↦ ?_⟩
      rw [readClassBody_cons, if_neg (by decide), if_pos rfl, hascii]
    | none =>
      refine ⟨complementIf false (.ofChars s.vowelChars), fun so fuel hfuel ↦ ?_⟩
      rw [readClassBody_cons, if_neg (by decide), if_pos rfl, hascii, hopen]
      dsimp only
      rw [hlist (by omega)]
      rfl

/-! ## The whole class -/

variable {s : SoundClass} {rest q : List Char}

/-- With the classes in place of the letters, the text is read as the body of a class up to `rest`,
which is what is left as `q` if blanks are in their place. -/
structure ReadsBody (s : SoundClass) (cs rest q : List Char) : Prop where
  /-- What is left stands at the end. -/
  suffix : rest <:+ cs
  /-- It is what is left with blanks. -/
  eq_put : q = blanks.put rest
  /-- The body is read, whatever has been read before, if there is fuel for its characters. -/
  exists_set : ∀ so, ∃ set, ∀ fuel, ((classes s).put cs).length < fuel →
    readClassBody .extended fuel so ((classes s).put cs) = some (set, (classes s).put rest)

namespace ReadsBody

/-- The bracket that closes the class. -/
theorem closing (s : SoundClass) (rest : List Char) :
    ReadsBody s (']' :: rest) rest (blanks.put rest) where
  suffix := List.suffix_cons ..
  eq_put := rfl
  exists_set so := by
    refine ⟨so.value, fun fuel hfuel ↦ ?_⟩
    obtain ⟨fuel, rfl⟩ : ∃ n, fuel = n + 1 := ⟨fuel - 1, by omega⟩
    rw [put_cons _ rfl, readClassBody_cons, if_pos rfl]

/-- One round before the others. -/
theorem of_step {c : Char} {more : List Char} (h : ReadsBody s more rest q) (hsuffix : more <:+ cs)
    (hstep : ∀ so, ∃ so', ∀ fuel, ((classes s).put (c :: cs)).length ≤ fuel →
      readClassBody .extended (fuel + 1) so ((classes s).put (c :: cs))
        = readClassBody .extended fuel so' ((classes s).put more)) :
    ReadsBody s (c :: cs) rest q where
  suffix := (h.suffix.trans hsuffix).trans (List.suffix_cons ..)
  eq_put := h.eq_put
  exists_set so := by
    obtain ⟨so', hso'⟩ := hstep so
    obtain ⟨set, hset⟩ := h.exists_set so'
    refine ⟨set, fun fuel hfuel ↦ ?_⟩
    obtain ⟨fuel, rfl⟩ : ∃ n, fuel = n + 1 := ⟨fuel - 1, by omega⟩
    have hle := (classes s).length_put_le hsuffix
    have hlt := (classes s).length_put_lt c cs
    rw [hso' fuel (by omega), hset fuel (by omega)]

/-- A class within the class, and what follows it. -/
theorem nested {more q' : List Char} (hascii : ∀ f : Filling, readAsciiClass (f.put cs) = none)
    (hinner : ReadsBody s (openClass cs).2.2 more q') (h : ReadsBody s more rest q) :
    ReadsBody s ('[' :: cs) rest q := by
  refine h.of_step (hinner.suffix.trans (openClass_suffix cs)) fun so ↦ ?_
  obtain ⟨set, hset⟩ := hinner.exists_set (openClass cs).2.1
  refine ⟨so.add (complementIf (openClass cs).1 set), fun fuel hfuel ↦ ?_⟩
  have hle := (classes s).length_put_le (openClass_suffix cs)
  have hlt := (classes s).length_put_lt '[' cs
  rw [put_cons _ rfl, readClassBody_cons, if_neg (by decide), if_pos rfl, hascii, openClass_put]
  dsimp only
  rw [hset fuel (by omega), Option.bind_some]

end ReadsBody

/-- A class letter is an item by itself: blanks would be no end of a range. -/
theorem readClassBody_letter {c : Char} (hc : isClassLetter c = true) {n m : Nat}
    {so so' : ClassSoFar} {set set' : CharSet}
    (h : readClassBody .extended (n + 1) so (c :: cs) = some (set, rest))
    (h' : readClassBody .extended (m + 1) so' (blanks.put (c :: cs)) = some (set', q)) :
    readClassBody .extended n (so.add (.single c)) cs = some (set, rest) ∧
      readClassBody .extended m (so'.add .blank) (blanks.put cs) = some (set', q) := by
  have hother : c ≠ ']' ∧ c ≠ '[' ∧ c ≠ '\\' := by
    rcases eq_of_isClassLetter hc with rfl | rfl <;> decide
  have hblank : readClassItem .extended ('\\' :: 's' :: blanks.put cs)
      = some (.inr .blank, blanks.put cs) := rfl
  rw [readClassBody_cons, if_neg hother.1, if_neg hother.2.1,
    readOperator_eq_none (mem_heads_of_isClassLetter hc), readClassRange_eq,
    readClassItem_cons hother.2.2] at h
  rw [put_letter_cons _ hc, text, List.cons_append, List.cons_append, List.nil_append,
    readClassBody_cons, if_neg (by decide), if_neg (by decide),
    readOperator_eq_none (by decide), readClassRange_eq, hblank] at h'
  simp only [Option.bind_some] at h h'
  by_cases hrange : OpensRange cs
  · rw [rangeAfter_inr ((opensRange_put _ cs).2 hrange)] at h'
    cases h'
  · rw [rangeAfter_of_not hrange] at h
    rw [rangeAfter_of_not fun hput ↦ hrange ((opensRange_put _ cs).1 hput)] at h'
    exact ⟨h, h'⟩

/-- **The body of a class is read to its end with the classes in place of the letters**, if it is
read with the letters themselves and with blanks in their place. -/
theorem readsBody (hs : s.vowelChars ≠ []) {n m : Nat} {so so' : ClassSoFar} {set set' : CharSet}
    (h : readClassBody .extended n so cs = some (set, rest))
    (h' : readClassBody .extended m so' (blanks.put cs) = some (set', q)) :
    ReadsBody s cs rest q := by
  induction n generalizing m so so' cs set set' rest q with
  | zero => cases h
  | succ n ih =>
    cases m with
    | zero => cases h'
    | succ m =>
    cases cs with
    | nil => cases h
    | cons c cs =>
    cases hc : isClassLetter c with
    | true =>
      obtain ⟨h, h'⟩ := readClassBody_letter hc h h'
      refine (ih h h').of_step (List.suffix_refl cs) fun so ↦ ?_
      obtain ⟨set, hset⟩ := readClassBody_text hs c ((classes s).put cs)
      rw [put_letter_cons _ hc]
      exact ⟨_, hset so⟩
    | false =>
    rw [readClassBody_cons] at h
    rw [put_cons _ hc, readClassBody_cons] at h'
    by_cases hclosing : c = ']'
    · subst hclosing
      rw [if_pos rfl] at h h'
      cases h
      cases h'
      exact .closing s rest
    rw [if_neg hclosing] at h h'
    by_cases hopening : c = '['
    · subst hopening
      rw [if_pos rfl] at h h'
      rcases (agrees_readAsciiClass cs).cases with hnone | ⟨set, more, hmore, hall⟩
      · have hself : readAsciiClass cs = none := by simpa using hnone letters
        rw [hself] at h
        rw [hnone, openClass_put] at h'
        obtain ⟨⟨inner, more⟩, hinner, h⟩ := Option.bind_eq_some_iff.1 h
        obtain ⟨⟨inner', q'⟩, hinner', h'⟩ := Option.bind_eq_some_iff.1 h'
        have hnested := ih hinner hinner'
        obtain rfl := hnested.eq_put
        exact .nested hnone hnested (ih h h')
      · have hself : readAsciiClass cs = some (set, more) := by simpa using hall letters
        rw [hself] at h
        rw [hall] at h'
        refine (ih h h').of_step hmore fun so ↦ ⟨so.add set, fun fuel _ ↦ ?_⟩
        rw [put_cons _ hc, readClassBody_cons, if_neg (by decide), if_pos rfl, hall]
    rw [if_neg hopening] at h h'
    rcases (agrees_readOperator c cs).cases with hnone | ⟨op, more, hmore, hall⟩
    · have hself : readOperator (c :: cs) = none := by simpa using hnone letters
      rw [hself] at h
      rw [hnone] at h'
      obtain ⟨⟨set, more⟩, hrange, h⟩ := Option.bind_eq_some_iff.1 h
      obtain ⟨⟨set', q'⟩, hrange', h'⟩ := Option.bind_eq_some_iff.1 h'
      obtain ⟨hmore, rfl, rfl, hall⟩ := (transfers_readClassRange c cs).of_eq_some hrange hrange'
      refine (ih h h').of_step hmore fun so ↦ ⟨so.add set', fun fuel _ ↦ ?_⟩
      rw [put_cons _ hc, readClassBody_cons, if_neg hclosing, if_neg hopening, hnone]
      dsimp only at hall ⊢
      rw [hall, Option.bind_some]
    · have hself : readOperator (c :: cs) = some (op, more) := by simpa using hall letters
      rw [hself] at h
      rw [hall] at h'
      refine (ih h h').of_step hmore fun so ↦ ⟨so.operate op, fun fuel _ ↦ ?_⟩
      rw [put_cons _ hc, readClassBody_cons, if_neg hclosing, if_neg hopening, hall]

/-- The same for a whole class behind its opening bracket. -/
theorem readClass_put (hs : s.vowelChars ≠ []) {set set' : CharSet}
    (h : readClass .extended cs = some (set, rest))
    (h' : readClass .extended (blanks.put cs) = some (set', q)) :
    rest <:+ cs ∧ q = blanks.put rest ∧
      ∃ set, readClass .extended ((classes s).put cs) = some (set, (classes s).put rest) := by
  simp only [readClass, openClass_put, Option.map_eq_some_iff] at h h' ⊢
  obtain ⟨⟨inner, _⟩, hinner, heq⟩ := h
  obtain ⟨⟨inner', _⟩, hinner', heq'⟩ := h'
  cases heq
  cases heq'
  obtain ⟨hsuffix, hq, hreads⟩ := readsBody hs hinner hinner'
  obtain ⟨set, hset⟩ := hreads (openClass cs).2.1
  exact ⟨hsuffix.trans (openClass_suffix cs), hq, _, _, hset _ (Nat.lt_succ_self _), rfl⟩

end Glossopoeia.Pattern
