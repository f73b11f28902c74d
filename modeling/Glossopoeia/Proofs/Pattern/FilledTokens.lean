import Glossopoeia.Proofs.Pattern.FilledClass
import Glossopoeia.Proofs.Pattern.Literal

/-!
# Classes in place of letters

A pattern that is accepted with its class letters, and with blanks in their place, is accepted with
the classes of a language in their place (`isSome_ofChars_substitute`).  The three texts are read
side by side, token for token: where no class letter is met the tokens are the same, and otherwise
they differ in their sets only (`readToken_put`), which does not matter to what the tokens make
together.
-/

set_option autoImplicit false

namespace Glossopoeia.Pattern

open Text Phonology Filling

variable {cs : List Char}

/-! ## Counts -/

/-- The text without the character if it stands at the start. -/
def skip (d : Char) (cs : List Char) : List Char := if cs.head? = some d then cs.tail else cs

theorem skip_put {d : Char} (hd : d ∉ heads) (f : Filling) (cs : List Char) :
    skip d (f.put cs) = f.put (skip d cs) := by
  by_cases h : cs.head? = some d
  · rw [skip, skip, if_pos ((f.head?_put hd).2 h), if_pos h, tail_put f hd h]
  · rw [skip, skip, if_neg fun hput ↦ h ((f.head?_put hd).1 hput), if_neg h]

theorem skip_suffix (d : Char) (cs : List Char) : skip d cs <:+ cs := by
  rw [skip]
  split
  · exact List.tail_suffix cs
  · exact List.suffix_refl cs

theorem readMarks_eq (least : Nat) (most : Option Nat) (cs : List Char) :
    readMarks .extended least most cs =
      (.count ⟨least, most, cs.head? = some '?', (skip '?' cs).head? = some '+'⟩,
        skip '+' (skip '?' cs)) := by
  rw [readMarks.eq_def]
  split
  next reluctant rest heq =>
  obtain ⟨rfl, rfl⟩ : decide (cs.head? = some '?') = reluctant ∧ skip '?' cs = rest := by
    split at heq
    · cases heq
      exact ⟨rfl, rfl⟩
    · next hmark =>
      cases heq
      exact ⟨by simp [head?_ne hmark], if_neg (head?_ne hmark)⟩
  generalize skip '?' cs = rest
  split
  · next heq => simp [skip]
  · next hplus =>
    have hhead := head?_ne fun rest ↦ hplus rest rfl
    simp [hhead, skip]

theorem readMarks_put (least : Nat) (most : Option Nat) (f : Filling) (cs : List Char) :
    readMarks .extended least most (f.put cs)
      = ((readMarks .extended least most cs).1, f.put (readMarks .extended least most cs).2) := by
  have hskip := skip_put (d := '?') (by decide) f cs
  simp [readMarks_eq, hskip, skip_put, f.head?_put, heads]

theorem readMarks_suffix (least : Nat) (most : Option Nat) (cs : List Char) :
    (readMarks .extended least most cs).2 <:+ cs := by
  rw [readMarks_eq]
  exact (skip_suffix ..).trans (skip_suffix ..)

/-- Read the greatest number of rounds, behind the comma. -/
def readMost (least : Nat) (cs : List Char) : Option ((Nat × Option Nat) × List Char) :=
  let last := cs.dropWhile isAsciiDigit
  if cs.head? = some '}' then some ((least, none), cs.tail)
  else if last.head? = some '}' then
    (boundOf? (cs.takeWhile isAsciiDigit)).map fun most ↦ ((least, some most), last.tail)
  else none

/-- The bounds of a count by what stands behind the digits of the first. -/
theorem readBounds_eq (cs : List Char) :
    readBounds .extended cs =
      let low := cs.takeWhile isAsciiDigit
      let rest := cs.dropWhile isAsciiDigit
      if rest.head? = some '}' then (boundOf? low).map fun n ↦ ((n, some n), rest.tail)
      else if rest.head? = some ',' then
        if low.isEmpty then readMost 0 rest.tail
        else (boundOf? low).bind fun least ↦ readMost least rest.tail
      else none := by
  simp only [readBounds, readBound, decide_true, Bool.true_and]
  generalize cs.takeWhile isAsciiDigit = low
  generalize cs.dropWhile isAsciiDigit = rest
  split
  · next heq =>
    cases heq
    rfl
  · next heq =>
    cases heq
    rename_i rest
    have hcomma : (',' :: rest).head? ≠ some '}' := by simp
    rw [if_neg hcomma, if_pos List.head?_cons, List.tail_cons]
    refine ite_congr rfl (fun _ ↦ (Option.bind_some ..).trans ?_)
      fun _ ↦ congrArg (Option.bind _) (funext fun least ↦ ?_)
    all_goals
      rw [readMost]
      split
      · rfl
      · next hclosing =>
        rw [if_neg (head?_ne hclosing)]
        split
        · next heq =>
          obtain ⟨hhigh, hlast⟩ := Prod.mk.inj heq
          rw [hhigh, hlast]
          rfl
        · next hlast => rw [if_neg (head?_ne fun rest heq ↦ hlast _ rest (Prod.ext rfl heq))]
  · next hclosing hcomma =>
    rw [if_neg (head?_ne fun rest heq ↦ hclosing _ rest (Prod.ext rfl heq)),
      if_neg (head?_ne fun rest heq ↦ hcomma _ rest (Prod.ext rfl heq))]

theorem head?_put_closing (f : Filling) (cs : List Char) :
    (f.put cs).head? = some '}' ↔ cs.head? = some '}' := f.head?_put (by decide)

theorem agrees_readMost (least : Nat) (cs : List Char) : Agrees (readMost least) cs := by
  intro f bounds q h
  have hdigits (g : Filling) := g.takeWhile_put isAsciiDigit_heads cs
  have hdrop : cs.dropWhile isAsciiDigit <:+ cs := List.dropWhile_suffix _
  simp only [readMost, (hdigits _).1, (hdigits _).2, head?_put_closing] at h ⊢
  split at h
  · next hhead =>
    cases h
    refine ⟨cs.tail, List.tail_suffix cs, fun g ↦ ?_⟩
    rw [if_pos hhead, tail_put _ (by decide) hhead]
  next hhead =>
  split at h
  · next hend =>
    obtain ⟨most, hmost, heq⟩ := Option.map_eq_some_iff.1 h
    cases heq
    refine ⟨_, (List.tail_suffix _).trans hdrop, fun g ↦ ?_⟩
    rw [if_neg hhead, if_pos hend, tail_put _ (by decide) hend, hmost]
    rfl
  · cases h

theorem agrees_readBounds (cs : List Char) : Agrees (readBounds .extended) cs := by
  intro f bounds q h
  have hdigits (g : Filling) := g.takeWhile_put isAsciiDigit_heads cs
  have hdrop : cs.dropWhile isAsciiDigit <:+ cs := List.dropWhile_suffix _
  have hcomma (g : Filling) (cs : List Char) :
      (g.put cs).head? = some ',' ↔ cs.head? = some ',' := g.head?_put (by decide)
  simp only [readBounds_eq, (hdigits _).1, (hdigits _).2, head?_put_closing, hcomma] at h ⊢
  generalize cs.dropWhile isAsciiDigit = rest at h hdrop ⊢
  have htail := (List.tail_suffix rest).trans hdrop
  split at h
  · next hhead =>
    obtain ⟨n, hn, heq⟩ := Option.map_eq_some_iff.1 h
    cases heq
    refine ⟨rest.tail, htail, fun g ↦ ?_⟩
    rw [if_pos hhead, tail_put _ (by decide) hhead, hn]
    rfl
  next hhead =>
  split at h
  · next hhead' =>
    simp only [if_neg hhead, if_pos hhead', tail_put _ (by decide) hhead'] at h ⊢
    split at h
    · next hempty =>
      obtain ⟨rest', hsuffix, hall⟩ := agrees_readMost 0 rest.tail f bounds q h
      exact ⟨rest', hsuffix.trans htail, fun g ↦ by rw [if_pos hempty, hall]⟩
    · next hempty =>
      obtain ⟨least, hleast, h⟩ := Option.bind_eq_some_iff.1 h
      obtain ⟨rest', hsuffix, hall⟩ := agrees_readMost least rest.tail f bounds q h
      exact ⟨rest', hsuffix.trans htail, fun g ↦ by
        rw [if_neg hempty, hleast, Option.bind_some, hall]⟩
  · cases h

/-! ## Opening parentheses -/

theorem readSwitches_put {on : Bool} {seen : List Char} {f : Filling} {list : List (Char × Bool)}
    {stop : Char} {q : List Char}
    (h : readSwitches on seen (f.put cs) = some (list, stop, q)) :
    ∃ rest, rest <:+ cs.tail ∧
      ∀ g : Filling, readSwitches on seen (g.put cs) = some (list, stop, g.put rest) := by
  induction cs generalizing on seen list with
  | nil => cases h
  | cons c cs ih =>
    cases hc : isClassLetter c with
    | true =>
      obtain ⟨head, tail, hput, hhead⟩ := f.exists_put_letter_cons hc cs
      have hnone : ∀ d ∈ heads, readSwitches on seen (d :: tail) = none := by
        refine forall_mem_heads.2 ⟨?_, ?_, ?_, ?_⟩ <;> simp [readSwitches, optionLetters]
      rw [hput, hnone head hhead] at h
      cases h
    | false =>
      simp only [put_cons _ hc, readSwitches] at h ⊢
      split at h
      · next hstop =>
        split at h
        · cases h
        · next hdash =>
          cases h
          exact ⟨cs, List.suffix_refl cs, fun g ↦ by rw [if_pos hstop, if_neg hdash]⟩
      next hstop =>
      split at h
      · next hdash =>
        split at h
        · next hon =>
          obtain ⟨rest, hsuffix, hall⟩ := ih h
          exact ⟨rest, hsuffix.trans (List.tail_suffix cs), fun g ↦ by
            rw [if_neg hstop, if_pos hdash, if_pos hon, hall]⟩
        · cases h
      next hdash =>
      split at h
      · next hoption =>
        obtain ⟨⟨list, stop, q⟩, hread, heq⟩ := Option.map_eq_some_iff.1 h
        cases heq
        obtain ⟨rest, hsuffix, hall⟩ := ih hread
        exact ⟨rest, hsuffix.trans (List.tail_suffix cs), fun g ↦ by
          rw [if_neg hstop, if_neg hdash, if_pos hoption, hall]
          rfl⟩
      · cases h

theorem backslash_notMem_of_isGroupName {name : List Char}
    (h : isGroupName .extended name = true) : '\\' ∉ name := by
  intro hmem
  have hall : name.all isNameChar = true := by
    cases name with
    | nil => cases hmem
    | cons => exact h
  exact absurd (List.all_eq_true.1 hall _ hmem) (by decide)

/-- A name up to the character that ends it. -/
theorem transfers_cut {α : Type} (stop : Char) (hstop : stop ∉ heads) (token : List Char → α)
    (cs : List Char) :
    Transfers (fun cs ↦ (cut stop cs).bind fun (name, rest) ↦
      if isGroupName .extended name then some (token name, rest) else none) cs := by
  intro x q h _
  obtain ⟨⟨name, q'⟩, hcut, hread⟩ := Option.bind_eq_some_iff.1 h
  dsimp only at hread
  split at hread
  · next hname =>
    cases hread
    obtain ⟨rest, hsuffix, hall⟩ :=
      cut_put_blanks hstop hcut (backslash_notMem_of_isGroupName hname)
    exact ⟨rest, hsuffix, fun f ↦ by simp [hall, hname]⟩
  · cases hread

theorem transfers_readGroupName (cs : List Char) : Transfers (readGroupName .extended) cs :=
  transfers_cut '>' (by decide) (fun name ↦ Token.opening (.capture (some name))) cs

/-- The token for options switched up to `stop`. -/
def switched? (list : List (Char × Bool)) (stop : Char) : Option Token :=
  if stop = ':' then some (.opening (.plain list))
  else if list = [] then none
  else some (.switches list)

/-- Read the token for options that are switched. -/
def readSwitched (cs : List Char) : Option (Token × List Char) :=
  (readSwitches true [] cs).bind fun (list, stop, rest) ↦ (switched? list stop).map (·, rest)

theorem transfers_readSwitched {c : Char} (hc : isClassLetter c = false) (cs : List Char) :
    Transfers (fun cs ↦ readSwitched (c :: cs)) cs := by
  intro token q h _
  dsimp only at h ⊢
  simp only [← put_cons _ hc] at h ⊢
  obtain ⟨⟨list, stop, q'⟩, hread, hmap⟩ := Option.bind_eq_some_iff.1 h
  obtain ⟨rest, hsuffix, hall⟩ := readSwitches_put hread
  obtain ⟨_, htoken, heq⟩ := Option.map_eq_some_iff.1 hmap
  cases heq
  exact ⟨rest, hsuffix, fun f ↦ by simp [readSwitched, hall, htoken]⟩

/-- What follows the question mark behind an opening parenthesis. -/
theorem readOpening_mark (c : Char) (cs : List Char) :
    readOpening .extended ('?' :: c :: cs) =
      if c = '=' then some (.opening (.ahead true), cs)
      else if c = '!' then some (.opening (.ahead false), cs)
      else if c = '>' then some (.opening .atomic, cs)
      else if c = '<' then
        if cs.head? = some '=' then some (.opening (.behind true), cs.tail)
        else if cs.head? = some '!' then some (.opening (.behind false), cs.tail)
        else readGroupName .extended cs
      else if c = 'P' then
        if cs.head? = some '=' then
          (cut ')' cs.tail).bind fun (name, rest) ↦
            if isGroupName .extended name then some (.namedBackreference name, rest) else none
        else if cs.head? = some '<' then readGroupName .extended cs.tail
        else none
      else readSwitched (c :: cs) := by
  rw [readOpening.eq_def]
  split
  · next heq =>
    cases heq
    rfl
  · next heq =>
    cases heq
    rfl
  · next heq =>
    cases heq
    rfl
  · next heq =>
    cases heq
    rfl
  · next heq =>
    cases heq
    rfl
  · next heq =>
    cases heq
    rfl
  · next heq =>
    cases heq
    rfl
  · next heq hahead hexcept =>
    cases heq
    rw [if_neg (by decide), if_neg (by decide), if_neg (by decide), if_pos rfl,
      if_neg (head?_ne fun rest ↦ hahead rest rfl), if_neg (head?_ne fun rest ↦ hexcept rest rfl)]
  · next hname hangle heq hequal hexcept _ _ hatomic hrecall =>
    cases heq
    rw [if_neg (by rintro rfl; exact hequal _ rfl rfl),
      if_neg (by rintro rfl; exact hexcept _ rfl rfl),
      if_neg (by rintro rfl; exact hatomic _ rfl rfl), if_neg (by rintro rfl; exact hangle _ rfl)]
    by_cases hP : c = 'P'
    · subst hP
      rw [if_pos rfl, if_neg (head?_ne fun rest h ↦ hrecall rest rfl (h ▸ rfl)),
        if_neg (head?_ne fun rest h ↦ hname rest (h ▸ rfl))]
      rfl
    · rw [if_neg hP, readSwitched]
      cases readSwitches true [] (c :: cs) with
      | none => rfl
      | some found =>
        obtain ⟨list, stop, rest⟩ := found
        by_cases hstop : stop = ':'
        · subst hstop
          rfl
        · cases list <;> simp [switched?, hstop]
  · next hmark _ _ _ _ _ _ =>
    exact absurd rfl (hmark _)

/-- What follows the question mark behind an opening parenthesis. -/
theorem transfers_readOpening_mark (cs : List Char) :
    Transfers (fun cs ↦ readOpening .extended ('?' :: cs)) cs := by
  have hconst (token : Token) (cs : List Char) :
      Transfers (fun cs ↦ some (token, cs)) cs := transfers_map_const (some token) cs
  cases cs with
  | nil =>
    intro token q h _
    cases h
  | cons c cs =>
  cases hc : isClassLetter c with
  | true =>
    intro token q _ hself
    rcases eq_of_isClassLetter hc with rfl | rfl <;> cases hself
  | false =>
    refine Transfers.cons hc (.congr ?_ fun cs ↦ readOpening_mark c cs)
    split
    · exact hconst _ cs
    split
    · exact hconst _ cs
    split
    · exact hconst _ cs
    split
    · exact .ite_head (by decide) (hconst _ _)
        (.ite_head (by decide) (hconst _ _) (transfers_readGroupName cs))
    split
    · exact .ite_head (by decide) (transfers_cut ')' (by decide) _ _)
        (.ite_head (by decide) (transfers_readGroupName _) (transfers_map_const none cs))
    · exact transfers_readSwitched hc cs

/-- What follows an opening parenthesis. -/
theorem transfers_readOpening (cs : List Char) : Transfers (readOpening .extended) cs := by
  have hopening (cs : List Char) : readOpening .extended cs =
      if cs.head? = some '?' then readOpening .extended ('?' :: cs.tail)
      else some (.opening (.capture none), cs) := by
    split
    · next hmark =>
      obtain ⟨rest, rfl⟩ := List.head?_eq_some_iff.1 hmark
      rfl
    · next hmark =>
      rw [readOpening.eq_def]
      split <;> simp_all
  have hmark : '?' ∉ heads := by decide
  exact Transfers.congr (.ite_head hmark (transfers_readOpening_mark cs.tail)
    (transfers_map_const (some _) cs)) hopening

/-! ## Tokens -/

/-- The marks behind a count. -/
theorem transfers_readMarks (least : Nat) (most : Option Nat) (cs : List Char) :
    Transfers (fun cs ↦ some (readMarks .extended least most cs)) cs := by
  intro token q h _
  dsimp only at h
  rw [readMarks_put] at h
  cases h
  exact ⟨_, readMarks_suffix least most cs, fun f ↦ congrArg some (readMarks_put least most f cs)⟩

/-- What follows an opening brace. -/
theorem transfers_readToken_brace (repeatable : Bool) (cs : List Char) :
    Transfers (fun cs ↦ readToken .extended repeatable ('{' :: cs)) cs := by
  cases repeatable with
  | false => exact transfers_map_const (some (Token.char '{')) cs
  | true =>
    have hread (cs : List Char) : readToken .extended true ('{' :: cs) =
        match readBounds .extended cs with
        | some ((least, most), rest) => some (readMarks .extended least most rest)
        | none => some (.char '{', cs) := by
      cases hbounds : readBounds .extended cs <;> simp [readToken, hbounds]
    refine .congr ?_ hread
    intro token q h hself
    rcases (agrees_readBounds cs).cases with hnone | ⟨⟨least, most⟩, rest, hsuffix, hall⟩
    · simp only [hnone, Option.some.injEq, Prod.mk.injEq] at h ⊢
      exact ⟨cs, List.suffix_refl cs, fun f ↦ ⟨h.1, rfl⟩⟩
    · simp only [hall, readMarks_put, Option.some.injEq, Prod.mk.injEq] at h ⊢
      exact ⟨_, (readMarks_suffix least most rest).trans hsuffix, fun f ↦ ⟨h.1, rfl⟩⟩

/-- What follows the first character of a token other than a class. -/
theorem transfers_readToken (repeatable : Bool) {c : Char} (hc : c ≠ '[') (cs : List Char) :
    Transfers (fun cs ↦ readToken .extended repeatable (c :: cs)) cs := by
  have hconst (token : Token) : Transfers (fun cs ↦ some (token, cs)) cs :=
    transfers_map_const (some token) cs
  by_cases hmeta : c ∈ metacharacters
  · simp only [metacharacters, List.mem_cons, List.not_mem_nil, or_false] at hmeta
    rcases hmeta with
      rfl | rfl | rfl | rfl | rfl | rfl | rfl | rfl | rfl | rfl | rfl | rfl | rfl | rfl
    · exact (transfers_readEscape false cs).map Token.ofEscape
    · exact hconst .any
    · exact transfers_readMarks 1 none cs
    · exact transfers_readMarks 0 none cs
    · exact transfers_readMarks 0 (some 1) cs
    · exact transfers_readOpening cs
    · exact hconst .closing
    · exact hconst .bar
    · exact absurd rfl hc
    · exact hconst (.char ']')
    · exact transfers_readToken_brace repeatable cs
    · exact hconst (.char '}')
    · exact hconst .caret
    · exact hconst .dollar
  · exact (hconst (.char c)).congr fun rest ↦ readToken_verbatim hmeta .extended repeatable rest

/-- The class that is put in place of a class letter is one token. -/
theorem readToken_text {s : SoundClass} (hs : s.vowelChars ≠ []) (repeatable : Bool) (c : Char)
    (more : List Char) :
    ∃ set, readToken .extended repeatable ((classes s).text c ++ more) = some (.set set, more) := by
  rw [text]
  split
  · have hread := (@readClass_escaped .extended _ (s.vowelChars_ne_nil_iff.1 hs) more).2
    exact ⟨.inverse (.ofChars s.excludedChars), by simp [s.consonant_eq, readToken, hread]⟩
  · have hread := (@readClass_escaped .extended _ hs more).1
    exact ⟨.ofChars s.vowelChars, by simp [s.vowel_eq, readToken, hread]⟩

/-- **A token is read with the classes in place of the letters**, if one is read with the letters
themselves and with blanks in their place.  The three differ in their sets only. -/
theorem readToken_put {s : SoundClass} (hs : s.vowelChars ≠ []) {repeatable : Bool}
    {token token' : Token} {rest q : List Char}
    (h : readToken .extended repeatable cs = some (token, rest))
    (h' : readToken .extended repeatable (blanks.put cs) = some (token', q)) :
    rest <:+ cs.tail ∧ q = blanks.put rest ∧ token'.outline = token.outline ∧
      ∃ token'', readToken .extended repeatable ((classes s).put cs)
        = some (token'', (classes s).put rest) ∧ token''.outline = token.outline := by
  cases cs with
  | nil => cases h
  | cons c cs =>
  cases hc : isClassLetter c with
  | true =>
    have hverbatim : c ∉ metacharacters := by
      rcases eq_of_isClassLetter hc with rfl | rfl <;> decide
    have hblank : readToken .extended repeatable ('\\' :: 's' :: blanks.put cs)
        = some (.set .blank, blanks.put cs) := rfl
    obtain ⟨set, hset⟩ := readToken_text hs repeatable c ((classes s).put cs)
    rw [readToken_verbatim hverbatim] at h
    rw [put_letter_cons _ hc, text, List.cons_append, List.cons_append, List.nil_append,
      hblank] at h'
    obtain ⟨rfl, rfl⟩ : .char c = token ∧ cs = rest := by simpa using h
    obtain ⟨rfl, rfl⟩ : .set .blank = token' ∧ blanks.put cs = q := by simpa using h'
    exact ⟨List.suffix_refl cs, rfl, rfl, .set set, by rw [put_letter_cons _ hc, hset], rfl⟩
  | false =>
  rw [put_cons _ hc] at h' ⊢
  by_cases hopening : c = '['
  · subst hopening
    simp only [readToken, Option.map_eq_some_iff] at h h' ⊢
    obtain ⟨⟨set, _⟩, hset, heq⟩ := h
    obtain ⟨⟨set', _⟩, hset', heq'⟩ := h'
    cases heq
    cases heq'
    obtain ⟨hsuffix, hq, set, hread⟩ := readClass_put hs hset hset'
    exact ⟨hsuffix, hq, rfl, _, ⟨_, hread, rfl⟩, rfl⟩
  · obtain ⟨hsuffix, rfl, rfl, hall⟩ :=
      (transfers_readToken repeatable hopening cs).of_eq_some h h'
    exact ⟨hsuffix, rfl, rfl, _, hall (classes s), rfl⟩

/-- The first token of a text, and the others. -/
theorem tokensFrom_eq_some_iff {dialect : Dialect} {n : Nat} {repeatable : Bool}
    {list : List Token} (hne : cs ≠ []) :
    tokensFrom dialect n repeatable cs = some list ↔
      ∃ k token rest more, n = k + 1 ∧ readToken dialect repeatable cs = some (token, rest) ∧
        tokensFrom dialect k token.endsAtom rest = some more ∧ list = token :: more := by
  obtain ⟨c, cs, rfl⟩ := List.exists_cons_of_ne_nil hne
  cases n with
  | zero => simp [tokensFrom]
  | succ n =>
    rw [tokensFrom.eq_def]
    dsimp only
    cases readToken dialect repeatable (c :: cs) with
    | none => simp
    | some found =>
      obtain ⟨token, rest⟩ := found
      simp [@eq_comm _ list]

/-- The same for all tokens of a text. -/
theorem tokensFrom_put {s : SoundClass} (hs : s.vowelChars ≠ []) {n m k : Nat} {repeatable : Bool}
    {list list' : List Token} (h : tokensFrom .extended n repeatable cs = some list)
    (h' : tokensFrom .extended m repeatable (blanks.put cs) = some list')
    (hk : ((classes s).put cs).length ≤ k) :
    ∃ list'', tokensFrom .extended k repeatable ((classes s).put cs) = some list'' ∧
      list''.map Token.outline = list.map Token.outline := by
  induction n generalizing m k repeatable cs list list' with
  | zero =>
    cases cs with
    | nil =>
      cases h
      exact ⟨[], by cases k <;> rfl, rfl⟩
    | cons => cases h
  | succ n ih =>
    cases cs with
    | nil =>
      cases h
      exact ⟨[], by cases k <;> rfl, rfl⟩
    | cons c cs =>
    have hne (f : Filling) : f.put (c :: cs) ≠ [] :=
      List.ne_nil_of_length_pos (Nat.zero_lt_of_lt (f.length_put_lt c cs))
    obtain ⟨_, token, rest, more, ⟨⟩, hread, hmore, rfl⟩ :=
      (tokensFrom_eq_some_iff (List.cons_ne_nil c cs)).1 h
    obtain ⟨_, token', _, more', rfl, hread', hmore', rfl⟩ := (tokensFrom_eq_some_iff (hne _)).1 h'
    obtain ⟨hsuffix, rfl, houtline', token'', hread'', houtline⟩ := readToken_put hs hread hread'
    have hlt := (classes s).length_put_lt c cs
    have hle : _ ≤ ((classes s).put cs).length := (classes s).length_put_le hsuffix
    rw [← token'.endsAtom_outline, houtline', token.endsAtom_outline] at hmore'
    obtain ⟨k, rfl⟩ : ∃ j, k = j + 1 := ⟨k - 1, by omega⟩
    obtain ⟨more'', hmore'', hmap⟩ := ih hmore hmore' (k := k) (by omega)
    rw [← token.endsAtom_outline, ← houtline, token''.endsAtom_outline] at hmore''
    exact ⟨_,
      (tokensFrom_eq_some_iff (hne _)).2 ⟨k, token'', _, more'', rfl, hread'', hmore'', rfl⟩,
      by rw [List.map_cons, List.map_cons, houtline, hmap]⟩

/-- **Classes in place of the letters leave a pattern a pattern**, if blanks in their place do. -/
theorem isSome_ofChars_substitute {s : SoundClass} (hs : s.vowelChars ≠ []) {cs : List Char}
    (h : (ofChars .extended cs).isSome = true)
    (h' : (ofChars .extended (blanks.put cs)).isSome = true) :
    (ofChars .extended (s.substitute cs)).isSome = true := by
  simp only [ofChars, tokens, Option.isSome_bind, Option.any_eq_true] at h h'
  obtain ⟨list, hlist, hpattern⟩ := h
  obtain ⟨list', hlist', -⟩ := h'
  obtain ⟨list'', hlist'', houtline⟩ := tokensFrom_put hs hlist hlist' (Nat.le_refl _)
  rw [put_classes] at hlist''
  rw [ofChars, tokens, hlist'', Option.bind_some, isSome_ofTokens_congr .extended houtline,
    hpattern]

end Glossopoeia.Pattern
