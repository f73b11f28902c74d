import Mathlib.Algebra.Order.Field.Rat
import Mathlib.Tactic.FieldSimp
import Mathlib.Tactic.Linarith
import Mathlib.Tactic.Positivity
import Mathlib.Tactic.Ring
import Glossopoeia.Lexicon.Order

/-!
# Words in the order of their letters

The index of a word is a positional numeral: a letter is worth its rank in the alphabet, and each
place a hundredth of the one before.  If all ranks are below a hundred, what follows a letter can
never make up for a letter that comes earlier in the alphabet, however long it is.  So words of one
length are in the order of their first difference (`LexicalOrder.compare_exactIndex`), and they tie
only if no letter tells them apart.

All of this is about exact numbers.  In doubles the places after the eighth or so are lost.

The loop runs from the last letter to the first and raises the radix to the distance of the letters
that count.  In words in which all of them do, each step is that of Horner's rule
(`LexicalOrder.foldr_addTerm`), and what is left is the numeral of the ranks (`placeValue`).
-/

set_option autoImplicit false

namespace Glossopoeia

open Text

/-! ## Lower case -/

theorem Text.lowercase_eq_self {cs : List Char} (h : ∀ c ∈ cs, lowerChar c = [c]) :
    lowercase cs = cs := by
  suffices ∀ before, lowerFrom before cs = cs from this []
  induction cs with
  | nil => exact fun _ ↦ rfl
  | cons c cs ih =>
    obtain ⟨hc, hcs⟩ := List.forall_mem_cons.1 h
    have hsigma : c ≠ '\u03a3' := by
      rintro rfl
      exact absurd hc (by decide)
    intro before
    rw [lowerFrom, if_neg hsigma, hc, ih hcs]
    rfl

/-! ## Numerals -/

namespace LexicalOrder

variable {r : Nat} {ranks ranks' : List Nat}

theorem radix_pos : 0 < radix := by decide

/-- What ranks are worth, each place a hundredth of the one before. -/
def placeValue : List Nat → ℚ
  | [] => 0
  | r :: ranks => r + placeValue ranks / radix

theorem placeValue_nonneg (ranks : List Nat) : 0 ≤ placeValue ranks := by
  induction ranks with
  | nil => exact le_refl 0
  | cons r ranks ih =>
    rw [placeValue]
    positivity

/-- Ranks below the radix are worth less than the radix, however many they are. -/
theorem placeValue_lt (h : ∀ r ∈ ranks, r < radix) : placeValue ranks < radix := by
  induction ranks with
  | nil => exact Nat.cast_pos.2 radix_pos
  | cons r ranks ih =>
    obtain ⟨hr, hranks⟩ := List.forall_mem_cons.1 h
    have hrest : placeValue ranks / radix < 1 := by
      rw [div_lt_one (Nat.cast_pos.2 radix_pos)]
      exact ih hranks
    have hnext : (r : ℚ) + 1 ≤ radix := by exact_mod_cast hr
    rw [placeValue]
    linarith

/-- What comes first decides. -/
theorem placeValue_cons_lt {r' : Nat} (hr : r < r') (h : ∀ r ∈ ranks, r < radix)
    (ranks' : List Nat) : placeValue (r :: ranks) < placeValue (r' :: ranks') := by
  have hrest : placeValue ranks / radix < 1 := by
    rw [div_lt_one (Nat.cast_pos.2 radix_pos)]
    exact placeValue_lt h
  have hrest' : 0 ≤ placeValue ranks' / radix :=
    div_nonneg (placeValue_nonneg ranks') (Nat.cast_nonneg radix)
  have hnext : (r : ℚ) + 1 ≤ r' := by exact_mod_cast hr
  rw [placeValue, placeValue]
  linarith

theorem compare_of_strictMono {f : ℚ → ℚ} (hf : StrictMono f) (x y : ℚ) :
    compare (f x) (f y) = compare x y := by
  rw [← cmp_eq_compare, ← cmp_eq_compare, hf.cmp_map_eq]

/-- **Numerals of one length are compared place by place**, if all ranks are below the radix. -/
theorem compare_placeValue (hlength : ranks.length = ranks'.length)
    (h : ∀ r ∈ ranks, r < radix) (h' : ∀ r ∈ ranks', r < radix) :
    compare (placeValue ranks) (placeValue ranks') = compare ranks ranks' := by
  induction ranks generalizing ranks' with
  | nil =>
    obtain rfl := List.length_eq_zero_iff.1 hlength.symm
    rfl
  | cons r ranks ih =>
    cases ranks' with
    | nil => cases hlength
    | cons r' ranks' =>
      obtain ⟨hr, hranks⟩ := List.forall_mem_cons.1 h
      obtain ⟨hr', hranks'⟩ := List.forall_mem_cons.1 h'
      rw [List.compare_cons_cons]
      rcases Nat.lt_trichotomy r r' with hlt | rfl | hgt
      · rw [compare_lt_iff_lt.2 (placeValue_cons_lt hlt hranks ranks'), Nat.compare_eq_lt.2 hlt]
        rfl
      · have hmono : StrictMono fun x : ℚ ↦ (r : ℚ) + x / radix := fun x y hxy ↦
          add_lt_add_right (div_lt_div_of_pos_right hxy (Nat.cast_pos.2 radix_pos)) _
        rw [Nat.compare_eq_eq.2 rfl]
        exact (compare_of_strictMono hmono _ _).trans (ih (by simpa using hlength) hranks hranks')
      · rw [compare_gt_iff_gt.2 (placeValue_cons_lt hgt hranks' ranks), Nat.compare_eq_gt.2 hgt]
        rfl

/-- More places are worth no less. -/
theorem placeValue_le_append (ranks more : List Nat) :
    placeValue ranks ≤ placeValue (ranks ++ more) := by
  induction ranks with
  | nil => exact placeValue_nonneg more
  | cons r ranks ih =>
    rw [List.cons_append, placeValue, placeValue]
    gcongr

/-! ## The index -/

/-- The remainder of the exponent goes to the factor, and half of the exponent to the square. -/
theorem powerOnto_eq (r a : ℚ) (n : Nat) : powerOnto r a n = r * a ^ n := by
  induction n using Nat.strong_induction_on generalizing r a with
  | _ n ih =>
    have hodd : (if n % 2 = 1 then r * a else r) = r * a ^ (n % 2) := by
      rcases Nat.mod_two_eq_zero_or_one n with h | h <;> simp [h]
    have hsplit : r * a ^ (n % 2) * (a * a) ^ (n / 2) = r * a ^ n := by
      rw [← pow_two, ← pow_mul, mul_assoc, ← pow_add, Nat.mod_add_div]
    rw [powerOnto, ← hsplit, hodd]
    split
    · next hhalf => rw [hhalf, pow_zero, mul_one]
    · exact ih (n / 2) (by omega) _ _

theorem weight_eq (n : Nat) : weight (α := ℚ) n = radix ^ n := by
  simp [weight, powerOnto_eq]

theorem weight_zero : weight (α := ℚ) 0 = 1 := by
  rw [weight_eq, pow_zero]

theorem weight_one : weight (α := ℚ) 1 = radix := by
  rw [weight_eq, pow_one]

/-- An alphabet whose letters are single characters. -/
def ofCharacters (alphabet : List Char) : LexicalOrder := ⟨alphabet.map Char.toString⟩

/-- The place of a character in an alphabet.  One that is not in it comes behind the end. -/
def rank (alphabet : List Char) (c : Char) : Nat := (alphabet.idxOf? c).getD (alphabet.length + 1)

/-- Is the character lower case as it stands, and does it count in a place of its own? -/
structure IsCounted (c : Char) : Prop where
  /-- It is its own lower case. -/
  lower : lowerChar c = [c]
  /-- It does not combine with the letter before it. -/
  notDiacritic : isDiacritic c = false
  /-- It is neither a stress mark nor a space. -/
  notSilent : isSilent c = false

instance : DecidablePred IsCounted := fun c ↦
  decidable_of_iff (lowerChar c = [c] ∧ isDiacritic c = false ∧ isSilent c = false)
    ⟨fun h ↦ ⟨h.1, h.2.1, h.2.2⟩, fun h ↦ ⟨h.lower, h.notDiacritic, h.notSilent⟩⟩

/-- The index of a spelled word in exact numbers. -/
def exactIndex (o : LexicalOrder) (spelled : String) : ℚ := o.indexOf (lowercase spelled.toList)

variable {alphabet : List Char} {cs : List Char}

theorem position?_ofCharacters (alphabet : List Char) (c : Char) :
    (ofCharacters alphabet).position? c = alphabet.idxOf? c := by
  rw [position?, ofCharacters, List.findIdx?_map, List.idxOf?]
  refine congrArg (List.findIdx? · alphabet) (funext fun letter ↦ ?_)
  simp

theorem score_none (alphabet : List Char) (c : Char) :
    (ofCharacters alphabet).score c none = rank alphabet c * radix := by
  rw [score, position?_ofCharacters, rank]
  cases alphabet.idxOf? c with
  | none => simp [ofCharacters]
  | some n => rfl

theorem rank_le (alphabet : List Char) (c : Char) : rank alphabet c ≤ alphabet.length + 1 := by
  rw [rank]
  cases hplace : alphabet.idxOf? c with
  | none => exact le_refl _
  | some n =>
    obtain ⟨hlt, -⟩ := List.idxOf?_eq_some_iff.1 hplace
    exact hlt.le.trans (Nat.le_succ _)

/-- A character that counts in a place of its own is a term of its own. -/
theorem terms_cons {c : Char} (h : ∀ d ∈ c :: cs, IsCounted d) (place : Nat) :
    (ofCharacters alphabet).terms place (c :: cs)
      = (place, rank alphabet c * radix) :: (ofCharacters alphabet).terms (place + 1) cs := by
  obtain ⟨hc, hcs⟩ := List.forall_mem_cons.1 h
  cases cs with
  | nil => simp [terms, hc.notSilent, score_none]
  | cons d cs =>
    have hd := (hcs d (List.mem_cons_self ..)).notDiacritic
    simp [terms, hc.notSilent, hd, score_none]

/-- **Horner's rule.**  In a word in which every character counts, the terms are taken in as the
places of a numeral. -/
theorem foldr_addTerm (h : ∀ c ∈ cs, IsCounted c) (place : Nat) :
    ((ofCharacters alphabet).terms place cs).foldr addTerm (0, place + cs.length)
      = (radix * placeValue (cs.map (rank alphabet)), place) := by
  induction cs generalizing place with
  | nil => simp [terms, placeValue]
  | cons c cs ih =>
    have hrest := ih (List.forall_mem_cons.1 h).2 (place + 1)
    have hplace : place + (c :: cs).length = place + 1 + cs.length := by
      rw [List.length_cons]
      omega
    have hradix : (radix : ℚ) ≠ 0 := Nat.cast_ne_zero.2 radix_pos.ne'
    rw [terms_cons h, List.foldr_cons, hplace, hrest, addTerm, Nat.add_sub_cancel_left, weight_one,
      List.map_cons, placeValue, Nat.cast_mul]
    refine Prod.ext ?_ rfl
    dsimp only
    field_simp
    ring

/-- **The index of a word** is the numeral of its ranks. -/
theorem exactIndex_eq {spelled : String} (h : ∀ c ∈ spelled.toList, IsCounted c) :
    (ofCharacters alphabet).exactIndex spelled
      = radix * placeValue (spelled.toList.map (rank alphabet)) := by
  have hfold : ((ofCharacters alphabet).terms 0 spelled.toList).foldr addTerm
      (0, spelled.toList.length)
        = (radix * placeValue (spelled.toList.map (rank alphabet)), 0) := by
    simpa using foldr_addTerm h 0
  rw [exactIndex, lowercase_eq_self fun c hc ↦ (h c hc).lower, indexOf, Nat.cast_zero, hfold]
  dsimp only
  rw [weight_zero, div_one]

/-! ## Words in order -/

/-- **Words of one length are in the order of their letters.**  If the ranks of an alphabet are
below the radix, the indices of two words in which every character counts are compared as the ranks
of their characters are, from the first to the last, and they tie only if the ranks are the same
throughout.  A word that goes on after another does not come before it. -/
theorem compare_exactIndex {alphabet : List Char} (halphabet : alphabet.length + 1 < radix)
    {u : String} (hu : ∀ c ∈ u.toList, IsCounted c) {v : String}
    (hv : ∀ c ∈ v.toList, IsCounted c) :
    (u.length = v.length →
      compare ((ofCharacters alphabet).exactIndex u) ((ofCharacters alphabet).exactIndex v)
        = compare (u.toList.map (rank alphabet)) (v.toList.map (rank alphabet)) ∧
      ((ofCharacters alphabet).exactIndex u = (ofCharacters alphabet).exactIndex v ↔
        u.toList.map (rank alphabet) = v.toList.map (rank alphabet))) ∧
    (ofCharacters alphabet).exactIndex u ≤ (ofCharacters alphabet).exactIndex (u ++ v) := by
  have hradix : (0 : ℚ) < radix := Nat.cast_pos.2 radix_pos
  have huv : ∀ c ∈ (u ++ v).toList, IsCounted c := by
    rw [String.toList_append, List.forall_mem_append]
    exact ⟨hu, hv⟩
  have hbelow (cs : List Char) : ∀ r ∈ cs.map (rank alphabet), r < radix :=
    List.forall_mem_map.2 fun c _ ↦ (rank_le alphabet c).trans_lt halphabet
  rw [exactIndex_eq hu, exactIndex_eq hv, exactIndex_eq huv]
  constructor
  · intro hlength
    have hranks : (u.toList.map (rank alphabet)).length
        = (v.toList.map (rank alphabet)).length := by
      rw [List.length_map, List.length_map, String.length_toList, String.length_toList, hlength]
    have hcompare := (compare_of_strictMono (strictMono_mul_left_of_pos hradix) _ _).trans
      (compare_placeValue hranks (hbelow _) (hbelow _))
    refine ⟨hcompare, ?_⟩
    rw [← compare_eq_iff_eq, hcompare, Std.LawfulEqCmp.compare_eq_iff_eq]
  · rw [String.toList_append, List.map_append]
    exact mul_le_mul_of_nonneg_left (placeValue_le_append _ _) hradix.le

/-- As many letters as the radix allows. -/
def manyLetters : List Char := (List.range' 0x4E00 98).map Char.ofNat

/-- The second letter comes after the first, although the letters behind the first are worth the
most and those behind the second are worth nothing. -/
theorem compare_exactIndex_manyLetters :
    manyLetters.length + 1 < radix ∧ (∀ c ∈ "一xxx".toList, IsCounted c) ∧
    (∀ c ∈ "丁一一一".toList, IsCounted c) ∧
    compare ((ofCharacters manyLetters).exactIndex "一xxx")
      ((ofCharacters manyLetters).exactIndex "丁一一一") = .lt ∧
    (ofCharacters manyLetters).exactIndex "一xxx"
      ≤ (ofCharacters manyLetters).exactIndex ("一xxx" ++ "丁一一一") := by
  have halphabet : manyLetters.length + 1 < radix := by decide
  have hone : IsCounted '一' := by decide
  have hu : ∀ c ∈ "一xxx".toList, IsCounted c := by simp [hone, show IsCounted 'x' by decide]
  have hv : ∀ c ∈ "丁一一一".toList, IsCounted c := by simp [hone, show IsCounted '丁' by decide]
  obtain ⟨hcompare, hle⟩ := compare_exactIndex halphabet hu hv
  exact ⟨halphabet, hu, hv, (hcompare (by decide)).1.trans (by decide), hle⟩

end LexicalOrder

end Glossopoeia
