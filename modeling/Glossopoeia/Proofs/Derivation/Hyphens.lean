import Glossopoeia.Derivation.Component
import Glossopoeia.Pattern.Reader
import Glossopoeia.Proofs.Pattern.Greedy
import Glossopoeia.Proofs.Pattern.Rewriting
import Glossopoeia.Proofs.Text.Words

/-!
# Hyphens between words

Before the right side of a derivation is taken apart, a blank is written for the hyphen of each pair
of words in small letters (`hyphenHit`).  `Component.splitHyphens` rewrites these pairs from left to
right, and so does the pattern `([a-z]+)-([a-z]+)`, each match of which is replaced by its two
groups with a blank between them (`splitHyphens_eq_replaceAll`).

Pairs do not overlap.  The second word of a pair is not the first word of another, so of a chain of
words only every other hyphen becomes a blank: `a-b-c-d` has the parts `a`, `b-c` and `d`
(`tokenize_intercalate`).
-/

set_option autoImplicit false

namespace Glossopoeia.Component

open Text Pattern

/-! ## Pairs of words -/

/-- A word in small letters. -/
structure IsLowerWord (cs : List Char) : Prop where
  /-- There is a letter in it. -/
  ne_nil : cs ≠ []
  /-- There is nothing but small letters in it. -/
  small : ∀ c ∈ cs, isSmallLetter c = true

instance (cs : List Char) : Decidable (IsLowerWord cs) :=
  decidable_of_iff (cs ≠ [] ∧ cs.all isSmallLetter = true)
    ⟨fun h ↦ ⟨h.1, List.all_eq_true.1 h.2⟩, fun h ↦ ⟨h.ne_nil, List.all_eq_true.2 h.small⟩⟩

theorem isLowerWord_cons {c : Char} (hc : isSmallLetter c = true) (rest : List Char) :
    IsLowerWord (c :: rest.takeWhile isSmallLetter) :=
  ⟨List.cons_ne_nil _ _, List.forall_mem_cons.2 ⟨hc, fun _ ↦ List.mem_takeWhile_imp⟩⟩

/-- Does the text begin with a hyphen and a small letter? -/
def JoinsOn (cs : List Char) : Prop := ∃ d more, cs = '-' :: d :: more ∧ isSmallLetter d = true

/-- Two words in small letters with a hyphen between them can be rewritten to the two words with a
blank between them.  The second word is as long as it can be. -/
def hyphenHit : Hit := fun _ matched rest new ↦
  ∃ first second, IsLowerWord first ∧ IsLowerWord second ∧
    (∀ c ∈ rest.head?, isSmallLetter c = false) ∧
    matched = first ++ '-' :: second ∧ new = first ++ ' ' :: second

variable {before matched rest new run after cs : List Char}

theorem ne_nil_of_hyphenHit (h : hyphenHit before matched rest new) : matched ≠ [] := by
  obtain ⟨first, second, -, -, -, rfl, -⟩ := h
  simp

/-- A pair of words begins with the longest run of small letters, and a hyphen and a small letter
come next. -/
theorem joinsOn_of_hyphenHit (h : hyphenHit before matched rest new) :
    (matched ++ rest).takeWhile isSmallLetter ≠ [] ∧
      JoinsOn ((matched ++ rest).dropWhile isSmallLetter) := by
  obtain ⟨first, second, hfirst, hsecond, -, rfl, -⟩ := h
  obtain ⟨d, more, rfl⟩ := List.exists_cons_of_ne_nil hsecond.ne_nil
  have hassoc : first ++ '-' :: d :: more ++ rest = first ++ '-' :: d :: (more ++ rest) := by simp
  obtain ⟨htake, hdrop⟩ := takeWhile_dropWhile_append_cons hfirst.small
    (by decide : isSmallLetter '-' = false) (d :: (more ++ rest))
  rw [hassoc, htake, hdrop]
  exact ⟨hfirst.ne_nil, d, more ++ rest, rfl, hsecond.small d (List.mem_cons_self ..)⟩

/-- No pair begins within a run of small letters that is not joined to another one. -/
theorem not_hyphenHit (hrun : ∀ c ∈ run, isSmallLetter c = true)
    (hend : ∀ c ∈ after.head?, isSmallLetter c = false) (hjoin : ¬JoinsOn after)
    (htext : run ++ after = matched ++ rest) : ¬hyphenHit before matched rest new := by
  intro hhit
  have hafter := (joinsOn_of_hyphenHit hhit).2
  rw [← htext, (takeWhile_dropWhile_append hrun hend).2] at hafter
  exact hjoin hafter

/-- No pair begins with another character. -/
theorem not_hyphenHit_cons {c : Char} (hc : isSmallLetter c = false)
    (htext : c :: after = matched ++ rest) : ¬hyphenHit before matched rest new := by
  intro hhit
  have hrun := (joinsOn_of_hyphenHit hhit).1
  rw [← htext, List.takeWhile_cons_of_neg (by simp [hc])] at hrun
  exact hrun rfl

/-- One pair at most begins at a place. -/
theorem hyphenHit_unique {matched' rest' new' : List Char}
    (h : hyphenHit before matched rest new) (h' : hyphenHit before matched' rest' new')
    (htext : matched ++ rest = matched' ++ rest') : matched = matched' ∧ new = new' := by
  obtain ⟨first, second, hfirst, hsecond, hend, rfl, rfl⟩ := h
  obtain ⟨first', second', hfirst', hsecond', hend', rfl, rfl⟩ := h'
  have hhyphen : isSmallLetter '-' = false := by decide
  obtain ⟨htake, hdrop⟩ := takeWhile_dropWhile_append_cons hfirst.small hhyphen (second ++ rest)
  obtain ⟨htake', hdrop'⟩ :=
    takeWhile_dropWhile_append_cons hfirst'.small hhyphen (second' ++ rest')
  rw [List.append_assoc, List.append_assoc, List.cons_append, List.cons_append] at htext
  rw [htext, hdrop'] at hdrop
  have hrest : second ++ rest = second' ++ rest' := (List.cons.inj hdrop).2.symm
  obtain rfl : first = first' := by rw [← htake, htext, htake']
  obtain rfl : second = second' := by
    rw [← (takeWhile_dropWhile_append hsecond.small hend).1, hrest,
      (takeWhile_dropWhile_append hsecond'.small hend').1]
  exact ⟨rfl, rfl⟩

/-! ## The rewriting of pairs -/

/-- The hyphen of a pair becomes a blank. -/
theorem rewritten_pair {first second result : List Char} (hfirst : IsLowerWord first)
    (hsecond : IsLowerWord second) (hend : ∀ c ∈ after.head?, isSmallLetter c = false)
    (h : Rewritten hyphenHit ((first ++ '-' :: second).reverse ++ before) after result) :
    Rewritten hyphenHit before (first ++ '-' :: (second ++ after))
      (first ++ ' ' :: (second ++ result)) := by
  have hfound := Rewritten.found ⟨first, second, hfirst, hsecond, hend, rfl, rfl⟩ h
  rwa [List.append_assoc, List.append_assoc] at hfound

/-- A run of small letters that is not joined to another one is kept. -/
theorem rewritten_run {result : List Char} (hrun : ∀ c ∈ run, isSmallLetter c = true)
    (hend : ∀ c ∈ after.head?, isSmallLetter c = false) (hjoin : ¬JoinsOn after)
    (h : Rewritten hyphenHit (run.reverse ++ before) after result) :
    Rewritten hyphenHit before (run ++ after) (run ++ result) :=
  h.append run fun a _ _ hsplit _ _ _ ↦
    not_hyphenHit (fun d hd ↦ hrun d (hsplit ▸ List.mem_append_right a hd)) hend hjoin

/-- Going through the text run by run rewrites the pairs. -/
theorem rewritten_splitHyphensFrom {fuel : Nat} (hfuel : cs.length ≤ fuel) :
    Rewritten hyphenHit before cs (splitHyphensFrom fuel cs) := by
  induction fuel generalizing before cs with
  | zero =>
    obtain rfl := List.length_eq_zero_iff.1 (Nat.le_zero.1 hfuel)
    exact .done
  | succ fuel ih =>
    cases cs with
    | nil => exact .done
    | cons c rest =>
      have hrest : rest.length ≤ fuel := Nat.le_of_succ_le_succ hfuel
      rw [splitHyphensFrom]
      by_cases hc : isSmallLetter c = true
      · let run := c :: rest.takeWhile isSmallLetter
        have hrun : IsLowerWord run := isLowerWord_cons hc rest
        have htext : c :: rest = run ++ rest.dropWhile isSmallLetter :=
          congrArg (c :: ·) List.takeWhile_append_dropWhile.symm
        have hafter : (rest.dropWhile isSmallLetter).length ≤ fuel :=
          (List.dropWhile_sublist _).length_le.trans hrest
        have hkept : ¬JoinsOn (rest.dropWhile isSmallLetter) →
            Rewritten hyphenHit before (c :: rest)
              (run ++ splitHyphensFrom fuel (rest.dropWhile isSmallLetter)) := fun hjoin ↦
          htext ▸ rewritten_run hrun.small (fun _ ↦ of_mem_head?_dropWhile) hjoin (ih hafter)
        rw [if_pos hc]
        dsimp only
        split
        · next d more hjoin =>
          split
          · next hd =>
            have hsecond : d :: more.takeWhile isSmallLetter ++ more.dropWhile isSmallLetter
                = d :: more := congrArg (d :: ·) List.takeWhile_append_dropWhile
            have hpair : c :: rest = run ++ '-' :: (d :: more.takeWhile isSmallLetter
                ++ more.dropWhile isSmallLetter) := by rw [htext, hjoin, hsecond]
            have hmore : (more.dropWhile isSmallLetter).length ≤ fuel := by
              have hle := (List.dropWhile_sublist (l := more) isSmallLetter).length_le
              rw [hjoin, List.length_cons, List.length_cons] at hafter
              omega
            exact hpair ▸ rewritten_pair hrun (isLowerWord_cons hd more)
              (fun _ ↦ of_mem_head?_dropWhile) (ih hmore)
          · next hd =>
            refine hjoin ▸ hkept ?_
            rintro ⟨d', more', heq, hd'⟩
            cases hjoin.symm.trans heq
            exact hd hd'
        · next hjoin =>
          refine hkept ?_
          rintro ⟨d, more, heq, -⟩
          exact hjoin _ _ heq
      · rw [if_neg hc]
        exact .kept (fun _ _ _ ↦ not_hyphenHit_cons (by simpa using hc)) (ih hrest)

/-- **The hyphens of pairs of words are rewritten from left to right.** -/
theorem rewritten_splitHyphens (cs : List Char) :
    Rewritten hyphenHit [] cs (splitHyphens cs) :=
  rewritten_splitHyphensFrom (Nat.le_refl _)

/-- There is no other way to rewrite the pairs. -/
theorem splitHyphens_eq {result : List Char} (h : Rewritten hyphenHit [] cs result) :
    splitHyphens cs = result :=
  (rewritten_splitHyphens cs).unique ne_nil_of_hyphenHit hyphenHit_unique h

/-! ## The pattern -/

/-- The small letters as a set of characters. -/
def smallLetters : CharSet := .union .empty (.range 'a' 'z')

theorem contains_smallLetters (c : Char) : smallLetters.contains c = isSmallLetter c := by
  simp [smallLetters, CharSet.contains, isSmallLetter]

/-- The pieces of the pattern behind the first word of a pair. -/
def joinedPieces : List Pattern :=
  [char '-', group 2 (repeated (one smallLetters) 1 none true)]

/-- The pieces of the pattern of a pair. -/
def pairPieces : List Pattern := group 1 (repeated (one smallLetters) 1 none true) :: joinedPieces

/-- The two words of a pair with a blank between them. -/
def pairTemplate : Template := [.group 1, .literal [' '], .group 2]

theorem read_pairPattern :
    Pattern.read? .regular "([a-z]+)-([a-z]+)" = some (sequence pairPieces) := by
  decide

theorem read_pairTemplate : Template.ofBraced "$\x7b1\x7d $\x7b2\x7d".toList = pairTemplate := by
  decide

/-- A group of small letters takes the longest word that follows. -/
theorem run_group_word_eq_some {index : Nat} {k : Rest} {t stop : Cursor}
    (hk : k.Exhausts isSmallLetter) :
    (group index (repeated (one smallLetters) 1 none true)).run t k = some stop ↔
      ∃ word rest, t.after = word ++ rest ∧ IsLowerWord word ∧
        (∀ c ∈ rest.head?, isSmallLetter c = false) ∧
        k ⟨word.reverse ++ t.before, rest, (index, word) :: t.groups⟩ = some stop := by
  have hset : smallLetters.contains = isSmallLetter := funext contains_smallLetters
  rw [← hset] at hk
  rw [hk.run_group_many_eq, hset, Option.ite_none_left_eq_some, Cursor.skipWhile]
  constructor
  · rintro ⟨hne, h⟩
    exact ⟨_, _, List.takeWhile_append_dropWhile.symm, ⟨hne, fun _ ↦ List.mem_takeWhile_imp⟩,
      fun _ ↦ of_mem_head?_dropWhile, h⟩
  · rintro ⟨word, rest, hafter, hword, hend, h⟩
    obtain ⟨htake, hdrop⟩ := takeWhile_dropWhile_append hword.small hend
    rw [hafter, htake, hdrop]
    exact ⟨hword.ne_nil, h⟩

/-- Behind the first word, the pieces match a hyphen and the longest word that follows. -/
theorem run_joinedPieces_eq_some {t stop : Cursor} :
    (sequence joinedPieces).run t some = some stop ↔
      ∃ second rest, t.after = '-' :: (second ++ rest) ∧ IsLowerWord second ∧
        (∀ c ∈ rest.head?, isSmallLetter c = false) ∧
        (⟨second.reverse ++ '-' :: t.before, rest, (2, second) :: t.groups⟩ : Cursor) = stop := by
  have hsome : Rest.LooksFor some (fun _ ↦ True) := ⟨fun _ ↦ by simp, fun _ _ ↦ id⟩
  rw [joinedPieces, char, run_one_eq_some]
  simp only [CharSet.contains_single, beq_iff_eq, Pattern.sequence,
    run_group_word_eq_some (hsome.exhausts _), Option.some.injEq]
  constructor
  · rintro ⟨_, _, hafter, rfl, second, rest, rfl, h⟩
    exact ⟨second, rest, hafter, h⟩
  · rintro ⟨second, rest, hafter, h⟩
    exact ⟨_, _, hafter, rfl, second, rest, rfl, h⟩

/-- The pieces behind the first word accept a place exactly before a hyphen and a small letter, so
no shorter first word is of use. -/
theorem exhausts_joinedPieces :
    Rest.Exhausts (fun t ↦ (sequence joinedPieces).run t some) isSmallLetter := by
  refine Rest.exhausts_of_forall_not (P := JoinsOn) (fun t ↦ ?_) ?_
  · rw [Option.eq_none_iff_forall_ne_some]
    simp only [ne_eq, run_joinedPieces_eq_some]
    constructor
    · rintro hnone ⟨d, more, hafter, hd⟩
      refine hnone _ ⟨d :: more.takeWhile isSmallLetter, more.dropWhile isSmallLetter, ?_,
        isLowerWord_cons hd more, fun _ ↦ of_mem_head?_dropWhile, rfl⟩
      rw [hafter, List.cons_append, List.takeWhile_append_dropWhile]
    · rintro hjoin stop ⟨second, rest, hafter, hsecond, -⟩
      obtain ⟨d, more, rfl⟩ := List.exists_cons_of_ne_nil hsecond.ne_nil
      exact hjoin ⟨d, more ++ rest, hafter, hsecond.small d (List.mem_cons_self ..)⟩
  · rintro c rest hc ⟨d, more, hcons, -⟩
    cases hcons
    exact absurd hc (by decide)

/-- The pieces match the pairs. -/
theorem run_pairPieces_eq_some {stop : Cursor} :
    (sequence pairPieces).run ⟨before, after, []⟩ some = some stop ↔
      ∃ first second rest, after = first ++ '-' :: (second ++ rest) ∧ IsLowerWord first ∧
        IsLowerWord second ∧ (∀ c ∈ rest.head?, isSmallLetter c = false) ∧
        (⟨(first ++ '-' :: second).reverse ++ before, rest, [(2, second), (1, first)]⟩ : Cursor)
          = stop := by
  rw [pairPieces, run_sequence_cons, run_group_word_eq_some exhausts_joinedPieces]
  simp only [run_joinedPieces_eq_some]
  constructor
  · rintro ⟨first, _, rfl, hfirst, -, second, rest, rfl, hsecond, hend, rfl⟩
    exact ⟨first, second, rest, rfl, hfirst, hsecond, hend, by simp⟩
  · rintro ⟨first, second, rest, rfl, hfirst, hsecond, hend, rfl⟩
    exact ⟨first, _, rfl, hfirst, fun c hc ↦ by cases hc; rfl, second, rest, rfl, hsecond, hend,
      by simp⟩

theorem rewrites_pairPieces : (sequence pairPieces).Rewrites pairTemplate hyphenHit where
  of_run h := by
    obtain ⟨first, second, rest, rfl, hfirst, hsecond, hend, rfl⟩ := run_pairPieces_eq_some.1 h
    refine ⟨first ++ '-' :: second, rest, by simp, by simp, rfl, rfl, first, second, hfirst,
      hsecond, hend, rfl, ?_⟩
    simp [pairTemplate, Template.fill, Match.group?, Cursor.groupText?, List.lookup_cons]
  run_ne_none := by
    rintro before matched rest new ⟨first, second, hfirst, hsecond, hend, rfl, -⟩
    rw [Option.ne_none_iff_exists']
    exact ⟨_, run_pairPieces_eq_some.2
      ⟨first, second, rest, by simp, hfirst, hsecond, hend, rfl⟩⟩

/-- **To split the hyphens is to replace the matches of the pattern.** -/
theorem splitHyphens_eq_replaceAll {p : Pattern}
    (hread : Pattern.read? .regular "([a-z]+)-([a-z]+)" = some p) (cs : List Char) :
    splitHyphens cs = p.replaceAll (Template.ofBraced "$\x7b1\x7d $\x7b2\x7d".toList) cs := by
  obtain rfl := Option.some.inj (read_pairPattern.symm.trans hread)
  rw [read_pairTemplate]
  exact splitHyphens_eq (rewrites_pairPieces.rewritten_replaceAll cs)

/-! ## Chains of words -/

/-- The texts taken in pairs, the two of each pair joined by a hyphen. -/
def joinPairs : List (List Char) → List (List Char)
  | [] => []
  | [a] => [a]
  | a :: b :: more => (a ++ '-' :: b) :: joinPairs more

theorem length_joinPairs (texts : List (List Char)) :
    (joinPairs texts).length = (texts.length + 1) / 2 := by
  fun_induction joinPairs texts with
  | case1 => rfl
  | case2 a => simp
  | case3 a b more ih =>
    rw [List.length_cons, ih, List.length_cons, List.length_cons]
    omega

theorem not_isBlank_of_isSmallLetter {c : Char} (h : isSmallLetter c = true) :
    isBlank c = false := by
  rw [isSmallLetter, Bool.and_eq_true, decide_eq_true_eq, decide_eq_true_eq] at h
  have hlow : 97 ≤ c.toNat := h.1
  have hhigh : c.toNat ≤ 122 := h.2
  simp [isBlank]
  omega

variable {word : List Char} {texts : List (List Char)}

theorem IsLowerWord.isWord (h : IsLowerWord word) : IsWord word :=
  ⟨h.ne_nil, fun c hc ↦ not_isBlank_of_isSmallLetter (h.small c hc)⟩

theorem isWord_of_mem_joinPairs (h : ∀ text ∈ texts, IsLowerWord text) :
    ∀ text ∈ joinPairs texts, IsWord text := by
  fun_induction joinPairs texts with
  | case1 => exact fun _ hmem ↦ absurd hmem List.not_mem_nil
  | case2 a => exact fun text hmem ↦ (h text hmem).isWord
  | case3 a b more ih =>
    simp only [List.forall_mem_cons] at h ⊢
    obtain ⟨ha, hb, hmore⟩ := h
    exact ⟨⟨by simp, ha.isWord.solid.append
      (List.forall_mem_cons.2 ⟨by decide, hb.isWord.solid⟩)⟩, ih hmore⟩

theorem intercalate_cons_cons (sep : Char) (a b : List Char) (texts : List (List Char)) :
    [sep].intercalate (a :: b :: texts) = a ++ sep :: [sep].intercalate (b :: texts) := by
  rw [List.intercalate_cons_cons, List.append_assoc, List.singleton_append]

theorem intercalate_append_cons (sep a b : List Char) (c : Char) (texts : List (List Char)) :
    sep.intercalate ((a ++ c :: b) :: texts) = a ++ c :: sep.intercalate (b :: texts) := by
  cases texts <;> simp

/-- In a chain of words every other hyphen becomes a blank, the first one included. -/
theorem rewritten_intercalate (h : ∀ text ∈ word :: texts, IsLowerWord text) :
    Rewritten hyphenHit before (['-'].intercalate (word :: texts))
      ([' '].intercalate (word :: joinPairs texts)) := by
  have hnil : ¬JoinsOn [] := by rintro ⟨_, _, h, -⟩; cases h
  fun_induction joinPairs texts generalizing word before with
  | case1 =>
    have hword : IsLowerWord word := h word (List.mem_cons_self ..)
    have hkept : Rewritten hyphenHit before (word ++ []) (word ++ []) :=
      rewritten_run hword.small (by simp) hnil .done
    simpa using hkept
  | case2 second =>
    obtain ⟨hfirst, hsecond, -⟩ := by simpa only [List.forall_mem_cons] using h
    have hpair : Rewritten hyphenHit before (word ++ '-' :: (second ++ []))
        (word ++ ' ' :: (second ++ [])) := rewritten_pair hfirst hsecond (by simp) .done
    simpa [intercalate_cons_cons] using hpair
  | case3 second next more ih =>
    obtain ⟨hfirst, hsecond, hrest⟩ : IsLowerWord word ∧ IsLowerWord second ∧
        ∀ text ∈ next :: more, IsLowerWord text := by simpa only [List.forall_mem_cons] using h
    -- The hyphen behind the second word belongs to no pair.
    have hkept : Rewritten hyphenHit ((word ++ '-' :: second).reverse ++ before)
        ('-' :: ['-'].intercalate (next :: more))
        ('-' :: [' '].intercalate (next :: joinPairs more)) :=
      .kept (fun _ _ _ ↦ not_hyphenHit_cons (by decide)) (ih hrest)
    have hpair := rewritten_pair hfirst hsecond (fun c hc ↦ by cases hc; rfl) hkept
    rwa [intercalate_cons_cons, intercalate_cons_cons, intercalate_cons_cons,
      intercalate_append_cons]

/-- The parts of a chain of words: the first word, and then the others in pairs, the two of a pair
still joined. -/
theorem tokenize_chain (h : ∀ text ∈ word :: texts, IsLowerWord text) :
    tokenize (['-'].intercalate (word :: texts)) = word :: joinPairs texts := by
  have hsplit : splitHyphens (['-'].intercalate (word :: texts))
      = [' '].intercalate (word :: joinPairs texts) := splitHyphens_eq (rewritten_intercalate h)
  obtain ⟨hword, htexts⟩ := List.forall_mem_cons.1 h
  rw [tokenize, hsplit,
    words_intercalate (List.forall_mem_cons.2 ⟨hword.isWord, isWord_of_mem_joinPairs htexts⟩)]

/-- **A chain of words in small letters is taken apart at every other hyphen.**  Its parts are the
first word and then the others in pairs, so the parts are the words exactly if there are no more
than two of them. -/
theorem tokenize_intercalate (word : List Char) (texts : List (List Char))
    (h : ∀ text ∈ word :: texts, IsLowerWord text) :
    tokenize (['-'].intercalate (word :: texts)) = word :: joinPairs texts ∧
      (tokenize (['-'].intercalate (word :: texts)) = word :: texts ↔ texts.length ≤ 1) := by
  refine ⟨tokenize_chain h, ?_⟩
  rw [tokenize_chain h, List.cons.injEq, and_iff_right rfl]
  constructor
  · intro heq
    have hlength := congrArg List.length heq
    rw [length_joinPairs] at hlength
    omega
  · intro hshort
    match texts, hshort with
    | [], _ => rfl
    | [_], _ => rfl

theorem tokenize_intercalate_four :
    (∀ text ∈ ["old".toList, "big".toList, "house".toList, "water".toList], IsLowerWord text) ∧
      tokenize "old-big-house-water".toList
        = ["old".toList, "big-house".toList, "water".toList] ∧
      tokenize "old-big-house-water".toList
        ≠ ["old".toList, "big".toList, "house".toList, "water".toList] := by
  have hwords : ∀ text ∈ ["old".toList, "big".toList, "house".toList, "water".toList],
      IsLowerWord text := by decide
  obtain ⟨hparts, hall⟩ := tokenize_intercalate _ _ hwords
  exact ⟨hwords, hparts, fun heq ↦ absurd (hall.1 heq) (by decide)⟩

/-- Not every hyphen between two words in small letters separates them. -/
theorem not_forall_tokenize_intercalate :
    ¬∀ words : List (List Char), words ≠ [] → (∀ text ∈ words, IsLowerWord text) →
      tokenize (['-'].intercalate words) = words := by
  intro hall
  have hthree := hall [['a'], ['b'], ['c']] (by decide) (by decide)
  exact absurd hthree (by decide)

end Glossopoeia.Component
