import Mathlib.Tactic.NormNum
import Glossopoeia.Proofs.Lexicon.Ranks

/-!
# Words with stress marks, spaces and diacritics

Stress marks and spaces count nothing, but they keep their place, and a diacritic takes the place
behind its letter.  So the index of such a word is a numeral as well, with a column for each
character (`LexicalOrder.exactIndex_eq_columns`): a letter is worth its rank, a stress mark or space
nothing, and a diacritic its distance from the first one.  The last twelve diacritics are a hundred
or more away from the first; they are worth one more rank of their letter and what is left over.

All columns are below the radix.  Words are therefore in the order of their columns, the shorter one
filled up with nothing.  That is the order of their letters if the marks of both words are in the
same places up to the first letter that tells them apart
(`LexicalOrder.compare_exactIndex_columns`), and it need not be otherwise: a stress mark moves all
letters behind it one place on (`LexicalOrder.not_forall_exactIndex_lt`).
-/

set_option autoImplicit false

namespace Glossopoeia.LexicalOrder

open Text

/-! ## Numerals filled up with nothing -/

section Numerals

variable {ranks ranks' : List Nat}

theorem placeValue_append_replicate (ranks : List Nat) (n : Nat) :
    placeValue (ranks ++ List.replicate n 0) = placeValue ranks := by
  induction ranks with
  | nil =>
    rw [List.nil_append]
    induction n with
    | zero => rfl
    | succ n ih =>
      rw [List.replicate_succ, placeValue.eq_2, ih]
      simp [placeValue]
  | cons r ranks ih => rw [List.cons_append, placeValue, placeValue, ih]

/-- Numerals are compared place by place, whatever their lengths, once the shorter one is filled up.
-/
theorem compare_placeValue_rightpad (h : ∀ r ∈ ranks, r < radix) (h' : ∀ r ∈ ranks', r < radix)
    {n : Nat} (hn : ranks.length ≤ n) (hn' : ranks'.length ≤ n) :
    compare (placeValue ranks) (placeValue ranks')
      = compare (ranks.rightpad n 0) (ranks'.rightpad n 0) := by
  have hbelow {l : List Nat} (hl : ∀ r ∈ l, r < radix) : ∀ r ∈ l.rightpad n 0, r < radix := by
    rw [List.rightpad, List.forall_mem_append]
    refine ⟨hl, fun r hr ↦ ?_⟩
    rw [List.eq_of_mem_replicate hr]
    exact radix_pos
  have hlength : (ranks.rightpad n 0).length = (ranks'.rightpad n 0).length := by
    rw [List.rightpad, List.rightpad, List.length_append, List.length_append,
      List.length_replicate, List.length_replicate]
    omega
  rw [← compare_placeValue hlength (hbelow h) (hbelow h'), List.rightpad, List.rightpad,
    placeValue_append_replicate, placeValue_append_replicate]

/-- The first rank that differs decides. -/
theorem placeValue_append_lt (front : List Nat) {r r' : Nat} (hr : r < r')
    (h : ∀ r ∈ ranks, r < radix) (ranks' : List Nat) :
    placeValue (front ++ r :: ranks) < placeValue (front ++ r' :: ranks') := by
  induction front with
  | nil => exact placeValue_cons_lt hr h ranks'
  | cons first front ih =>
    rw [List.cons_append, List.cons_append, placeValue, placeValue]
    exact add_lt_add_right (div_lt_div_of_pos_right ih (Nat.cast_pos.2 radix_pos)) _

end Numerals

/-! ## Marked words -/

/-- The place of a diacritic among the diacritics. -/
def diacriticRank (d : Char) : Nat := d.toNat - 0x300

/-- May a diacritic stand on `c`?  It is a letter of the alphabet, or silent. -/
def IsBase (alphabet : List Char) (c : Char) : Prop := c ∈ alphabet ∨ isSilent c = true

/-- A word over an alphabet in which stress marks and spaces may stand anywhere and each character
but a diacritic may carry one diacritic. -/
inductive IsMarked (alphabet : List Char) : List Char → Prop
  | nil : IsMarked alphabet []
  | bare {c : Char} {cs : List Char} (hc : IsBase alphabet c) (hcs : IsMarked alphabet cs) :
    IsMarked alphabet (c :: cs)
  | carrying {c d : Char} {cs : List Char} (hc : IsBase alphabet c) (hd : isDiacritic d = true)
    (hcs : IsMarked alphabet cs) : IsMarked alphabet (c :: d :: cs)

/-- What a character is worth in its place and, in the next one, the diacritic that it carries. -/
def signColumns (alphabet : List Char) (c : Char) : Option Char → List Nat
  | none => [if isSilent c then 0 else rank alphabet c]
  | some d =>
    if isSilent c then [0, 0]
    else [rank alphabet c + diacriticRank d / radix, diacriticRank d % radix]

/-- What each character of a text is worth in its place. -/
def columns (alphabet : List Char) : List Char → List Nat
  | [] => []
  | [c] => signColumns alphabet c none
  | c :: d :: rest =>
    if isDiacritic d then signColumns alphabet c (some d) ++ columns alphabet rest
    else signColumns alphabet c none ++ columns alphabet (d :: rest)

/-- The word with nothing but the letters of the alphabet. -/
def lettersOf (alphabet : List Char) (spelled : String) : String :=
  String.ofList (spelled.toList.filter alphabet.contains)

section Signs

variable {alphabet : List Char} {c d : Char} {cs : List Char}

theorem bounds_of_isDiacritic (h : isDiacritic d = true) : 0x300 ≤ d.toNat ∧ d.toNat ≤ 0x36F := by
  simpa [isDiacritic] using h

/-- There are a few more diacritics than the radix has digits. -/
theorem diacriticRank_lt (h : isDiacritic d = true) : diacriticRank d < 2 * radix := by
  have hbounds := bounds_of_isDiacritic h
  show d.toNat - 0x300 < 2 * 100
  omega

theorem eq_or_eq_of_isSilent (h : isSilent c = true) : c = 'ˈ' ∨ c = ' ' := by
  simpa [isSilent] using h

/-- No case run touches the diacritics. -/
theorem lowerChar_of_isDiacritic (h : isDiacritic d = true) : lowerChar d = [d] := by
  have hruns : ∀ run ∈ lowerRuns, run.last < 0x300 ∨ 0x36F < run.first := by decide +kernel
  have hbounds := bounds_of_isDiacritic h
  have hnone : lowerRuns.find? (·.covers d.toNat) = none := by
    rw [List.find?_eq_none]
    intro run hrun hcovers
    have hcovered : run.first ≤ d.toNat ∧ d.toNat ≤ run.last := by
      rw [CaseRun.covers, Bool.and_eq_true, Bool.and_eq_true] at hcovers
      simpa using hcovers.1
    have hapart := hruns run hrun
    omega
  have hdotted : d ≠ '\u0130' := by
    rintro rfl
    exact absurd hbounds.1 (by decide)
  rw [lowerChar, if_neg hdotted, CaseRun.apply, hnone]

theorem rank_lt_length (h : c ∈ alphabet) : rank alphabet c < alphabet.length := by
  obtain ⟨n, hn⟩ := Option.isSome_iff_exists.1 (List.isSome_idxOf?.2 h)
  obtain ⟨hlt, -⟩ := List.idxOf?_eq_some_iff.1 hn
  rw [rank, hn]
  exact hlt

theorem rank_ne {c' : Char} (h : c ∈ alphabet) (h' : c' ∈ alphabet) (hne : c ≠ c') :
    rank alphabet c ≠ rank alphabet c' := by
  obtain ⟨n, hn⟩ := Option.isSome_iff_exists.1 (List.isSome_idxOf?.2 h)
  obtain ⟨n', hn'⟩ := Option.isSome_iff_exists.1 (List.isSome_idxOf?.2 h')
  obtain ⟨_, hc, -⟩ := List.idxOf?_eq_some_iff.1 hn
  obtain ⟨_, hc', -⟩ := List.idxOf?_eq_some_iff.1 hn'
  rw [rank, rank, hn, hn', Option.getD_some, Option.getD_some]
  rintro rfl
  exact hne (hc.symm.trans hc')

theorem score_some (h : c ∈ alphabet) (d : Char) :
    (ofCharacters alphabet).score c (some d) = rank alphabet c * radix + diacriticRank d := by
  obtain ⟨n, hn⟩ := Option.isSome_iff_exists.1 (List.isSome_idxOf?.2 h)
  rw [score, position?_ofCharacters, rank, hn]
  rfl

variable (hletters : ∀ c ∈ alphabet, IsCounted c)

include hletters

theorem IsBase.not_isDiacritic (h : IsBase alphabet c) : isDiacritic c = false := by
  rcases h with h | h
  · exact (hletters c h).notDiacritic
  · rcases eq_or_eq_of_isSilent h with rfl | rfl <;> decide

theorem IsBase.lowerChar_eq (h : IsBase alphabet c) : lowerChar c = [c] := by
  rcases h with h | h
  · exact (hletters c h).lower
  · rcases eq_or_eq_of_isSilent h with rfl | rfl <;> decide

theorem IsMarked.lowercase_eq (h : IsMarked alphabet cs) : lowercase cs = cs := by
  refine lowercase_eq_self ?_
  induction h with
  | nil => exact List.forall_mem_nil _
  | bare hc _ ih => exact List.forall_mem_cons.2 ⟨hc.lowerChar_eq hletters, ih⟩
  | carrying hc hd _ ih =>
    exact List.forall_mem_cons.2 ⟨hc.lowerChar_eq hletters,
      List.forall_mem_cons.2 ⟨lowerChar_of_isDiacritic hd, ih⟩⟩

/-- A base is followed by another one, by its diacritic or by nothing. -/
theorem IsMarked.head?_ne (h : IsMarked alphabet cs) : cs.head?.all fun c ↦ !isDiacritic c := by
  cases h with
  | nil => rfl
  | bare hc _ => simp [hc.not_isDiacritic hletters]
  | carrying hc _ _ => simp [hc.not_isDiacritic hletters]

theorem terms_bare (hcs : IsMarked alphabet cs) (place : Nat) :
    (ofCharacters alphabet).terms place (c :: cs)
      = (if isSilent c then [] else [(place, rank alphabet c * radix)])
        ++ (ofCharacters alphabet).terms (place + 1) cs := by
  have hhead := hcs.head?_ne hletters
  cases cs with
  | nil => simp [terms, score_none]
  | cons d cs =>
    have hd : isDiacritic d = false := by simpa using hhead
    rw [terms, hd, if_neg Bool.false_ne_true, score_none]
    split <;> rfl

omit hletters in
theorem terms_carrying (hc : IsBase alphabet c) (hd : isDiacritic d = true) (place : Nat) :
    (ofCharacters alphabet).terms place (c :: d :: cs)
      = (if isSilent c then [] else [(place, rank alphabet c * radix + diacriticRank d)])
        ++ (ofCharacters alphabet).terms (place + 2) cs := by
  rw [terms, if_pos hd]
  split
  · rfl
  · next hsilent => rw [score_some (hc.resolve_right hsilent)]; rfl

theorem columns_bare (hcs : IsMarked alphabet cs) :
    columns alphabet (c :: cs) = signColumns alphabet c none ++ columns alphabet cs := by
  have hhead := hcs.head?_ne hletters
  cases cs with
  | nil => simp [columns]
  | cons d cs =>
    have hd : isDiacritic d = false := by simpa using hhead
    rw [columns, hd, if_neg Bool.false_ne_true]

omit hletters in
theorem columns_carrying (hd : isDiacritic d = true) :
    columns alphabet (c :: d :: cs) = signColumns alphabet c (some d) ++ columns alphabet cs := by
  rw [columns, if_pos hd]

omit hletters in
@[simp]
theorem length_columns (alphabet cs : List Char) : (columns alphabet cs).length = cs.length := by
  fun_induction columns alphabet cs with
  | case1 => rfl
  | case2 c => rfl
  | case3 c d rest hd ih =>
    rw [List.length_append, ih, signColumns]
    split <;> simp <;> omega
  | case4 c d rest hd ih =>
    rw [List.length_append, ih, signColumns]
    simp
    omega

end Signs

/-! ## Horner's rule with gaps -/

/-- What a sum is worth at a place that is not behind its own. -/
def worth (place : Nat) (sum : ℚ × Nat) : ℚ := sum.1 / weight (sum.2 - place)

/-- A place further to the front is worth more. -/
theorem worth_eq_div {place step : Nat} {sum : ℚ × Nat} (h : place + step ≤ sum.2) :
    worth place sum = worth (place + step) sum / radix ^ step := by
  rw [worth, worth, weight_eq, weight_eq, div_div, ← pow_add]
  congr 2
  omega

/-- What is taken in is worth itself at its own place. -/
theorem worth_addTerm {place step : Nat} (n : Nat) {sum : ℚ × Nat} (h : place + step ≤ sum.2) :
    worth place (addTerm (place, n) sum) = n + worth (place + step) sum / radix ^ step := by
  rw [← worth_eq_div h, worth, addTerm, Nat.sub_self, weight_zero, div_one, worth, add_comm]

section Horner

variable {alphabet : List Char} {c d : Char} {cs : List Char}

/-- What a character adds to the columns behind it. -/
theorem radix_mul_placeValue_bare (alphabet : List Char) (c : Char) (ranks : List Nat) :
    radix * placeValue (signColumns alphabet c none ++ ranks)
      = ((if isSilent c then 0 else rank alphabet c * radix : Nat) : ℚ)
        + radix * placeValue ranks / radix ^ 1 := by
  have hradix : (radix : ℚ) ≠ 0 := Nat.cast_ne_zero.2 radix_pos.ne'
  rw [signColumns, List.singleton_append, placeValue]
  split
  · push_cast
    field_simp
    ring
  · push_cast
    field_simp

/-- A diacritic that is worth more than a place holds is worth one more in the place before. -/
theorem radix_mul_placeValue_carrying (alphabet : List Char) (c d : Char) (ranks : List Nat) :
    radix * placeValue (signColumns alphabet c (some d) ++ ranks)
      = ((if isSilent c then 0 else rank alphabet c * radix + diacriticRank d : Nat) : ℚ)
        + radix * placeValue ranks / radix ^ 2 := by
  have hradix : (radix : ℚ) ≠ 0 := Nat.cast_ne_zero.2 radix_pos.ne'
  rw [signColumns]
  split
  · rw [List.cons_append, List.singleton_append, placeValue, placeValue]
    push_cast
    field_simp
    ring
  · have hsplit : ((diacriticRank d : Nat) : ℚ) = radix * ((diacriticRank d / radix : Nat) : ℚ)
        + ((diacriticRank d % radix : Nat) : ℚ) := by
      exact_mod_cast (Nat.div_add_mod (diacriticRank d) radix).symm
    rw [List.cons_append, List.singleton_append, placeValue, placeValue]
    push_cast
    rw [hsplit]
    field_simp
    ring

/-- What is taken in for a character: nothing if it is silent. -/
theorem worth_foldr_sign {place step : Nat} (n : Nat) {sum : ℚ × Nat} (h : place + step ≤ sum.2)
    (silent : Bool) :
    place ≤ ((if silent then [] else [(place, n)]).foldr addTerm sum).2 ∧
      worth place ((if silent then [] else [(place, n)]).foldr addTerm sum)
        = ((if silent then 0 else n : Nat) : ℚ) + worth (place + step) sum / radix ^ step := by
  cases silent with
  | true =>
    refine ⟨(Nat.le_add_right place step).trans h, ?_⟩
    show worth place sum = ((0 : Nat) : ℚ) + _
    rw [worth_eq_div h, Nat.cast_zero, zero_add]
  | false => exact ⟨le_refl place, worth_addTerm n h⟩

variable (hletters : ∀ c ∈ alphabet, IsCounted c)

include hletters

/-- **Horner's rule with gaps.**  The terms of a marked word are taken in as the columns of a
numeral. -/
theorem worth_foldr_addTerm (h : IsMarked alphabet cs) (place : Nat) :
    place ≤ (((ofCharacters alphabet).terms place cs).foldr addTerm
        ((0 : ℚ), place + cs.length)).2 ∧
      worth place (((ofCharacters alphabet).terms place cs).foldr addTerm
        (0, place + cs.length)) = radix * placeValue (columns alphabet cs) := by
  induction h generalizing place with
  | nil => exact ⟨le_refl place, by simp [terms, worth, columns, placeValue]⟩
  | @bare c cs hc hcs ih =>
    obtain ⟨hplace, hworth⟩ := ih (place + 1)
    have hlength : place + (c :: cs).length = place + 1 + cs.length := by
      rw [List.length_cons]
      omega
    obtain ⟨hle, hstep⟩ := worth_foldr_sign (rank alphabet c * radix) hplace (isSilent c)
    rw [terms_bare hletters hcs, columns_bare hletters hcs, List.foldr_append, hlength,
      radix_mul_placeValue_bare, ← hworth]
    exact ⟨hle, hstep⟩
  | @carrying c d cs hc hd hcs ih =>
    obtain ⟨hplace, hworth⟩ := ih (place + 2)
    have hlength : place + (c :: d :: cs).length = place + 2 + cs.length := by
      rw [List.length_cons, List.length_cons]
      omega
    obtain ⟨hle, hstep⟩ := worth_foldr_sign (rank alphabet c * radix + diacriticRank d) hplace
      (isSilent c)
    rw [terms_carrying hc hd, columns_carrying hd, List.foldr_append, hlength,
      radix_mul_placeValue_carrying, ← hworth]
    exact ⟨hle, hstep⟩

/-- **The index of a marked word** is the numeral of its columns. -/
theorem exactIndex_eq_columns {spelled : String} (h : IsMarked alphabet spelled.toList) :
    (ofCharacters alphabet).exactIndex spelled
      = radix * placeValue (columns alphabet spelled.toList) := by
  have hworth := (worth_foldr_addTerm hletters h 0).2
  rw [worth, Nat.sub_zero, Nat.zero_add] at hworth
  rw [exactIndex, h.lowercase_eq hletters, indexOf, Nat.cast_zero]
  exact hworth

theorem exactIndex_lt_iff {u v : String} (hu : IsMarked alphabet u.toList)
    (hv : IsMarked alphabet v.toList) :
    (ofCharacters alphabet).exactIndex u < (ofCharacters alphabet).exactIndex v ↔
      placeValue (columns alphabet u.toList) < placeValue (columns alphabet v.toList) := by
  rw [exactIndex_eq_columns hletters hu, exactIndex_eq_columns hletters hv]
  exact mul_lt_mul_iff_right₀ (Nat.cast_pos.2 radix_pos)

omit hletters in
theorem signColumns_none_lt (halphabet : alphabet.length < radix) (hc : IsBase alphabet c) :
    ∀ r ∈ signColumns alphabet c none, r < radix := by
  refine List.forall_mem_singleton.2 ?_
  split
  · exact radix_pos
  · next hsilent => exact (rank_lt_length (hc.resolve_right hsilent)).trans halphabet

omit hletters in
theorem signColumns_some_lt (halphabet : alphabet.length < radix) (hc : IsBase alphabet c)
    (hd : isDiacritic d = true) : ∀ r ∈ signColumns alphabet c (some d), r < radix := by
  rw [signColumns]
  split
  · exact List.forall_mem_cons.2 ⟨radix_pos, List.forall_mem_singleton.2 radix_pos⟩
  · next hsilent =>
    have hrank := rank_lt_length (hc.resolve_right hsilent)
    have hcarry : diacriticRank d / radix < 2 :=
      Nat.div_lt_of_lt_mul ((diacriticRank_lt hd).trans_eq (Nat.mul_comm _ _))
    refine List.forall_mem_cons.2 ⟨?_, List.forall_mem_singleton.2 (Nat.mod_lt _ radix_pos)⟩
    omega

omit hletters in
/-- There is room for one more rank in each column of a letter. -/
theorem columns_lt (hletters : ∀ c ∈ alphabet, IsCounted c) (halphabet : alphabet.length < radix)
    (h : IsMarked alphabet cs) : ∀ r ∈ columns alphabet cs, r < radix := by
  induction h with
  | nil => exact List.forall_mem_nil _
  | bare hc hcs ih =>
    rw [columns_bare hletters hcs, List.forall_mem_append]
    exact ⟨signColumns_none_lt halphabet hc, ih⟩
  | carrying hc hd _ ih =>
    rw [columns_carrying hd, List.forall_mem_append]
    exact ⟨signColumns_some_lt halphabet hc hd, ih⟩

end Horner

/-! ## Marks in the same places -/

/-- The same character, or one silent character in place of another. -/
def IsAlike (c c' : Char) : Prop := c = c' ∨ isSilent c = true ∧ isSilent c' = true

/-- Does a text begin with a diacritic that is worth a rank of the letter before it? -/
def beginsHigh (cs : List Char) : Bool :=
  cs.head?.any fun d ↦ isDiacritic d && decide (radix ≤ diacriticRank d)

/-- Two words part at letters that stand in the same place: what stands before them is the same but
for the choice between stress marks and spaces.  If the letter of the first word carries one of the
last diacritics, so does that of the second. -/
def PartAlike (alphabet : List Char) (u v : List Char) : Prop :=
  ∃ p q x y s t, u = p ++ x :: s ∧ v = q ++ y :: t ∧ List.Forall₂ IsAlike p q ∧
    x ∈ alphabet ∧ y ∈ alphabet ∧ x ≠ y ∧ (beginsHigh s = true → beginsHigh t = true)

section Alike

variable {alphabet : List Char} {x y : Char} {p q s t : List Char}

/-- A text can be cut before a character that is no diacritic. -/
theorem columns_append (p : List Char) (hx : isDiacritic x = false) (s : List Char) :
    columns alphabet (p ++ x :: s) = columns alphabet p ++ columns alphabet (x :: s) := by
  fun_induction columns alphabet p with
  | case1 => rfl
  | case2 c => rw [List.singleton_append, columns, if_neg (by simp [hx])]
  | case3 c d rest hd ih =>
    rw [List.cons_append, List.cons_append, columns, if_pos hd, ih, List.append_assoc]
  | case4 c d rest hd ih =>
    rw [List.cons_append, List.cons_append, columns, if_neg hd, ← List.cons_append, ih,
      List.append_assoc]

theorem IsAlike.isDiacritic_eq {c c' : Char} (h : IsAlike c c') :
    isDiacritic c = isDiacritic c' := by
  rcases h with rfl | ⟨h, h'⟩
  · rfl
  · rcases eq_or_eq_of_isSilent h with rfl | rfl <;>
      rcases eq_or_eq_of_isSilent h' with rfl | rfl <;> decide

theorem IsAlike.signColumns_eq {c c' : Char} (h : IsAlike c c') {d d' : Option Char}
    (hd : d = d') : signColumns alphabet c d = signColumns alphabet c' d' := by
  subst hd
  rcases h with rfl | ⟨h, h'⟩
  · rfl
  · cases d <;> simp [signColumns, h, h']

theorem IsAlike.eq_of_isDiacritic {d d' : Char} (h : IsAlike d d') (hd : isDiacritic d = true) :
    d = d' := by
  refine h.resolve_right fun hsilent ↦ ?_
  rcases eq_or_eq_of_isSilent hsilent.1 with rfl | rfl <;> exact absurd hd (by decide)

/-- Stress marks and spaces may be exchanged for each other. -/
theorem columns_eq_of_alike (h : List.Forall₂ IsAlike p q) :
    columns alphabet p = columns alphabet q := by
  fun_induction columns alphabet p generalizing q with
  | case1 =>
    obtain rfl := List.forall₂_nil_left_iff.1 h
    rfl
  | case2 c =>
    obtain ⟨c', _, hc, hnil, rfl⟩ := List.forall₂_cons_left_iff.1 h
    obtain rfl := List.forall₂_nil_left_iff.1 hnil
    exact hc.signColumns_eq rfl
  | case3 c d rest hd ih =>
    obtain ⟨c', _, hc, htail, rfl⟩ := List.forall₂_cons_left_iff.1 h
    obtain ⟨d', rest', hdd', hrest, rfl⟩ := List.forall₂_cons_left_iff.1 htail
    obtain rfl := hdd'.eq_of_isDiacritic hd
    rw [columns, if_pos hd, ih hrest, hc.signColumns_eq rfl]
  | case4 c d rest hd ih =>
    obtain ⟨c', _, hc, htail, rfl⟩ := List.forall₂_cons_left_iff.1 h
    obtain ⟨d', rest', hdd', hrest, rfl⟩ := List.forall₂_cons_left_iff.1 htail
    rw [columns, if_neg (hdd'.isDiacritic_eq ▸ hd), ih htail, hc.signColumns_eq rfl]

variable (hletters : ∀ c ∈ alphabet, IsCounted c)

include hletters

/-- The first column of a letter is its rank, or the next one behind one of the last diacritics. -/
theorem columns_letter (hx : x ∈ alphabet) (s : List Char) :
    ∃ ranks, columns alphabet (x :: s)
      = (rank alphabet x + if beginsHigh s then 1 else 0) :: ranks := by
  have hsilent := (hletters x hx).notSilent
  cases s with
  | nil => exact ⟨[], by simp [columns, signColumns, hsilent, beginsHigh]⟩
  | cons d rest =>
    by_cases hd : isDiacritic d = true
    · have hcarry : diacriticRank d / radix = if radix ≤ diacriticRank d then 1 else 0 := by
        split
        · next hle => exact Nat.div_eq_of_lt_le (by simpa using hle) (diacriticRank_lt hd)
        · next hlt => exact Nat.div_eq_of_lt (Nat.lt_of_not_le hlt)
      rw [columns_carrying hd, signColumns, hsilent, if_neg Bool.false_ne_true, hcarry]
      exact ⟨diacriticRank d % radix :: columns alphabet rest, by simp [beginsHigh, hd]⟩
    · rw [columns, if_neg hd, signColumns, hsilent, if_neg Bool.false_ne_true]
      exact ⟨columns alphabet (d :: rest), by simp [beginsHigh, hd]⟩

/-- The letters of words that part alike are the same before the letters at which they part. -/
theorem filter_eq_of_alike (h : List.Forall₂ IsAlike p q) :
    p.filter alphabet.contains = q.filter alphabet.contains := by
  induction h with
  | nil => rfl
  | @cons c c' p q hc _ ih =>
    rcases hc with rfl | ⟨hc, hc'⟩
    · rw [List.filter_cons, List.filter_cons, ih]
    · have hnot {d : Char} (hd : isSilent d = true) : ¬alphabet.contains d = true := by
        rw [List.contains_iff_mem]
        intro hmem
        rw [(hletters d hmem).notSilent] at hd
        exact Bool.false_ne_true hd
      rw [List.filter_cons_of_neg (hnot hc), List.filter_cons_of_neg (hnot hc'), ih]

theorem isCounted_of_mem_lettersOf {spelled : String} :
    ∀ c ∈ (lettersOf alphabet spelled).toList, IsCounted c := by
  intro c hc
  rw [lettersOf, String.toList_ofList] at hc
  exact hletters c (by simpa using (List.mem_filter.1 hc).2)

/-- The letters of words that part alike are in the order of the letters at which they part. -/
theorem rank_lt_of_exactIndex_lettersOf (halphabet : alphabet.length < radix) {u v : String}
    (hu : u.toList = p ++ x :: s) (hv : v.toList = q ++ y :: t) (hpq : List.Forall₂ IsAlike p q)
    (hx : x ∈ alphabet) (hy : y ∈ alphabet) (hne : x ≠ y)
    (h : (ofCharacters alphabet).exactIndex (lettersOf alphabet u)
      < (ofCharacters alphabet).exactIndex (lettersOf alphabet v)) :
    rank alphabet x < rank alphabet y := by
  have hbelow (cs : List Char) :
      ∀ r ∈ (cs.filter alphabet.contains).map (rank alphabet), r < radix := by
    refine List.forall_mem_map.2 fun c hc ↦ (rank_lt_length ?_).trans halphabet
    simpa using (List.mem_filter.1 hc).2
  have hranks {w : String} {front : List Char} {z : Char} {rest : List Char}
      (hw : w.toList = front ++ z :: rest) (hz : z ∈ alphabet) :
      (lettersOf alphabet w).toList.map (rank alphabet)
        = (front.filter alphabet.contains).map (rank alphabet)
          ++ rank alphabet z :: (rest.filter alphabet.contains).map (rank alphabet) := by
    rw [lettersOf, String.toList_ofList, hw, List.filter_append,
      List.filter_cons_of_pos (List.contains_iff_mem.2 hz), List.map_append, List.map_cons]
  rw [exactIndex_eq (isCounted_of_mem_lettersOf hletters),
    exactIndex_eq (isCounted_of_mem_lettersOf hletters), hranks hu hx, hranks hv hy,
    filter_eq_of_alike hletters hpq] at h
  refine (rank_ne hx hy hne).lt_of_le (Nat.le_of_not_lt fun hgt ↦ ?_)
  have hlt := placeValue_append_lt ((q.filter alphabet.contains).map (rank alphabet)) hgt (hbelow t)
    ((s.filter alphabet.contains).map (rank alphabet))
  exact lt_asymm h (mul_lt_mul_of_pos_left hlt (Nat.cast_pos.2 radix_pos))

end Alike

/-! ## Marked words in order -/

/-- **Marked words are in the order of their columns**, of which the shorter word has none left
where the longer one goes on.  If two words part alike, that is the order of their letters. -/
theorem compare_exactIndex_columns {alphabet : List Char} (halphabet : alphabet.length < radix)
    (hletters : ∀ c ∈ alphabet, IsCounted c) {u v : String} (hu : IsMarked alphabet u.toList)
    (hv : IsMarked alphabet v.toList) :
    (∀ n, u.length ≤ n → v.length ≤ n →
      compare ((ofCharacters alphabet).exactIndex u) ((ofCharacters alphabet).exactIndex v)
        = compare ((columns alphabet u.toList).rightpad n 0)
          ((columns alphabet v.toList).rightpad n 0)) ∧
    (PartAlike alphabet u.toList v.toList →
      (ofCharacters alphabet).exactIndex (lettersOf alphabet u)
        < (ofCharacters alphabet).exactIndex (lettersOf alphabet v) →
      (ofCharacters alphabet).exactIndex u < (ofCharacters alphabet).exactIndex v) := by
  have hulow := columns_lt hletters halphabet hu
  have hvlow := columns_lt hletters halphabet hv
  constructor
  · intro n hun hvn
    have hradix : (0 : ℚ) < radix := Nat.cast_pos.2 radix_pos
    rw [exactIndex_eq_columns hletters hu, exactIndex_eq_columns hletters hv,
      ← compare_placeValue_rightpad hulow hvlow (by rwa [length_columns, String.length_toList])
        (by rwa [length_columns, String.length_toList])]
    exact compare_of_strictMono (strictMono_mul_left_of_pos hradix) _ _
  · rintro ⟨p, q, x, y, s, t, hueq, hveq, hpq, hx, hy, hne, hhigh⟩ hlt
    have hrank := rank_lt_of_exactIndex_lettersOf hletters halphabet hueq hveq hpq hx hy hne hlt
    obtain ⟨xs, hxs⟩ := columns_letter hletters hx s
    obtain ⟨ys, hys⟩ := columns_letter hletters hy t
    have hfirst : (rank alphabet x + if beginsHigh s then 1 else 0)
        < rank alphabet y + if beginsHigh t then 1 else 0 := by
      cases hs : beginsHigh s with
      | false => exact hrank.trans_le (Nat.le_add_right _ _)
      | true =>
        rw [hhigh hs]
        exact Nat.add_lt_add_right hrank 1
    rw [exactIndex_lt_iff hletters hu hv]
    rw [hueq, columns_append p (hletters x hx).notDiacritic, columns_eq_of_alike hpq,
      hxs] at hulow ⊢
    rw [hveq, columns_append q (hletters y hy).notDiacritic, hys]
    refine placeValue_append_lt _ hfirst (fun r hr ↦ ?_) ys
    exact hulow r (List.mem_append_right _ (List.mem_cons_of_mem _ hr))

/-- The alphabet of three letters. -/
def firstLetters : List Char := ['a', 'b', 'c']

theorem isCounted_firstLetters : ∀ c ∈ firstLetters, IsCounted c := by
  simp [firstLetters, show IsCounted 'a' by decide, show IsCounted 'b' by decide,
    show IsCounted 'c' by decide]

/-- The words part behind different silent marks, at letters that both carry the last diacritic. -/
theorem compare_exactIndex_columns_lastDiacritic :
    firstLetters.length < radix ∧ (∀ c ∈ firstLetters, IsCounted c) ∧
    IsMarked firstLetters "ˈa\u0301b\u036fa".toList ∧
    IsMarked firstLetters " a\u0301c\u036f a".toList ∧
    PartAlike firstLetters "ˈa\u0301b\u036fa".toList " a\u0301c\u036f a".toList ∧
    (ofCharacters firstLetters).exactIndex (lettersOf firstLetters "ˈa\u0301b\u036fa")
      < (ofCharacters firstLetters).exactIndex (lettersOf firstLetters " a\u0301c\u036f a") ∧
    (ofCharacters firstLetters).exactIndex "ˈa\u0301b\u036fa"
      < (ofCharacters firstLetters).exactIndex " a\u0301c\u036f a" := by
  have ha : IsBase firstLetters 'a' := .inl (by decide)
  have hb : IsBase firstLetters 'b' := .inl (by decide)
  have hc : IsBase firstLetters 'c' := .inl (by decide)
  have hu : IsMarked firstLetters "ˈa\u0301b\u036fa".toList :=
    .bare (.inr rfl) (.carrying ha rfl (.carrying hb rfl (.bare ha .nil)))
  have hv : IsMarked firstLetters " a\u0301c\u036f a".toList :=
    .bare (.inr rfl) (.carrying ha rfl (.carrying hc rfl (.bare (.inr rfl) (.bare ha .nil))))
  have hpart : PartAlike firstLetters "ˈa\u0301b\u036fa".toList " a\u0301c\u036f a".toList :=
    ⟨['ˈ', 'a', '\u0301'], [' ', 'a', '\u0301'], 'b', 'c', ['\u036f', 'a'], ['\u036f', ' ', 'a'],
      rfl, rfl, .cons (.inr ⟨rfl, rfl⟩) (.cons (.inl rfl) (.cons (.inl rfl) .nil)), by decide,
      by decide, by decide, fun _ ↦ by decide⟩
  have hletters : (ofCharacters firstLetters).exactIndex (lettersOf firstLetters "ˈa\u0301b\u036fa")
      < (ofCharacters firstLetters).exactIndex (lettersOf firstLetters " a\u0301c\u036f a") := by
    rw [exactIndex_eq (isCounted_of_mem_lettersOf isCounted_firstLetters),
      exactIndex_eq (isCounted_of_mem_lettersOf isCounted_firstLetters)]
    show (radix : ℚ) * placeValue [0, 1, 0] < radix * placeValue [0, 2, 0]
    norm_num [placeValue, radix]
  exact ⟨by decide, isCounted_firstLetters, hu, hv, hpart, hletters,
    (compare_exactIndex_columns (by decide) isCounted_firstLetters hu hv).2 hpart hletters⟩

/-- **A stress mark moves the letters behind it.**  So words with the same number of letters need
not be in the order of their letters.  A diacritic has the same effect, and moreover it outweighs
all letters behind its own; one of the last diacritics outweighs the letter that carries it. -/
theorem not_forall_exactIndex_lt :
    (¬∀ (alphabet : List Char) (u v : String), alphabet.length ≤ 97 → alphabet.Nodup →
      (∀ c ∈ alphabet, IsCounted c) → IsMarked alphabet u.toList → IsMarked alphabet v.toList →
      (lettersOf alphabet u).length = (lettersOf alphabet v).length →
      (ofCharacters alphabet).exactIndex (lettersOf alphabet u)
        < (ofCharacters alphabet).exactIndex (lettersOf alphabet v) →
      (ofCharacters alphabet).exactIndex u < (ofCharacters alphabet).exactIndex v) ∧
    (ofCharacters firstLetters).exactIndex "a\u0300c"
      < (ofCharacters firstLetters).exactIndex "ab" ∧
    (ofCharacters firstLetters).exactIndex "b"
      < (ofCharacters firstLetters).exactIndex "a\u036f" := by
  have ha : IsBase firstLetters 'a' := .inl (by decide)
  have hb : IsBase firstLetters 'b' := .inl (by decide)
  have hc : IsBase firstLetters 'c' := .inl (by decide)
  have hba : IsMarked firstLetters "ba".toList := .bare hb (.bare ha .nil)
  have hca : IsMarked firstLetters "ˈca".toList := .bare (.inr rfl) (.bare hc (.bare ha .nil))
  refine ⟨fun hall ↦ ?_, ?_, ?_⟩
  · have hletters : (ofCharacters firstLetters).exactIndex (lettersOf firstLetters "ba")
        < (ofCharacters firstLetters).exactIndex (lettersOf firstLetters "ˈca") := by
      rw [exactIndex_eq (isCounted_of_mem_lettersOf isCounted_firstLetters),
        exactIndex_eq (isCounted_of_mem_lettersOf isCounted_firstLetters)]
      show (radix : ℚ) * placeValue [1, 0] < radix * placeValue [2, 0]
      norm_num [placeValue, radix]
    have hlt := hall firstLetters "ba" "ˈca" (by decide) (by decide) isCounted_firstLetters hba hca
      (by decide) hletters
    rw [exactIndex_lt_iff isCounted_firstLetters hba hca] at hlt
    have hgt : placeValue [0, 2, 0] < placeValue [1, 0] := by norm_num [placeValue, radix]
    exact lt_asymm hlt hgt
  · have hac : IsMarked firstLetters "a\u0300c".toList := .carrying ha rfl (.bare hc .nil)
    have hab : IsMarked firstLetters "ab".toList := .bare ha (.bare hb .nil)
    rw [exactIndex_lt_iff isCounted_firstLetters hac hab]
    show placeValue [0, 0, 2] < placeValue [0, 1]
    norm_num [placeValue, radix]
  · have hb : IsMarked firstLetters "b".toList := .bare hb .nil
    have ha : IsMarked firstLetters "a\u036f".toList := .carrying ha rfl .nil
    rw [exactIndex_lt_iff isCounted_firstLetters hb ha]
    show placeValue [1] < placeValue [1, 11]
    norm_num [placeValue, radix]

end Glossopoeia.LexicalOrder
