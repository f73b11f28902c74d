import Glossopoeia.Proofs.Decimal.Double

/-!
# The shortest decimals of whole numbers

Around the double of a whole number below `2 ^ 53` only numbers that are less than one away round to
it.  So on a grid of whole numbers only the number itself can be found, and it is found on the
coarsest such grid on which it stands, which is that of its digits without the zeros at its end.  A
number of up to sixteen digits is then written with all of its digits and a zero after the point
(`renderFloat_whole`).
-/

set_option autoImplicit false

namespace Glossopoeia.Decimal

/-! ## Digits -/

theorem digitsOf_mul_ten {n d : Nat} (hn : 0 < n) (hd : d < 10) :
    digitsOf (10 * n + d) = digitsOf n ++ [Nat.digitChar d] := by
  rw [digitsOf, digitsOf, ← Nat.toDigits_append_toDigits (by decide) hn hd,
    Nat.toDigits_of_lt_base hd]

theorem digitsOf_mul_tenTo {n : Nat} (hn : 0 < n) (k : Nat) :
    digitsOf (n * 10 ^ k) = digitsOf n ++ List.replicate k '0' := by
  induction k with
  | zero => simp
  | succ k ih =>
    have hpos : 0 < n * 10 ^ k := Nat.mul_pos hn (Nat.pow_pos (by decide))
    have hten : n * 10 ^ (k + 1) = 10 * (n * 10 ^ k) + 0 := by ring
    rw [hten, digitsOf_mul_ten hpos (by decide), ih, List.append_assoc, List.replicate_succ']
    rfl

theorem digitCount_mul_tenTo {n : Nat} (hn : 0 < n) (k : Nat) :
    digitCount (n * 10 ^ k) = digitCount n + k := by
  show (digitsOf (n * 10 ^ k)).length = _
  rw [digitsOf_mul_tenTo hn, List.length_append, List.length_replicate]
  rfl

/-! ## The grids -/

/-- The magnitude is that of the double of a whole number. -/
structure Binary.IsWhole (b : Binary) (n : Nat) : Prop where
  /-- The number is not zero. -/
  pos : 0 < n
  /-- It has no more bits than a mantissa. -/
  lt : n < 2 ^ 53
  /-- The mantissa has all of its bits. -/
  mantissa : b.mantissa = fullMantissa n
  /-- The exponent counts the zeros that fill up the mantissa. -/
  exponent : b.exponent = (n.log2 : Int) - 52

namespace Binary

variable {b : Binary} {n : Nat}

theorem isWhole_ofBits (hpos : 0 < n) (hlt : n < 2 ^ 53) (negative : Bool) :
    (ofBits (if negative then -ofWhole n else ofWhole n).toBits).IsWhole n := by
  have hbits := toNat_toBits_signed hpos hlt negative
  have hlog := (Nat.log2_lt hpos.ne').2 hlt
  have hfull := (Nat.log2_eq_iff (fullMantissa_pos hpos hlt).ne').1 (log2_fullMantissa hpos hlt)
  have h52 : twoTo 52 = 4503599627370496 := rfl
  have h11 : twoTo 11 = 2048 := rfl
  have hbool : negative.toNat ≤ 1 := Bool.toNat_le negative
  have hbiased : (if negative then -ofWhole n else ofWhole n).toBits.toNat / twoTo 52 % twoTo 11
      = n.log2 + 1023 := by
    rw [hbits, h52, h11]
    omega
  have hfraction : (if negative then -ofWhole n else ofWhole n).toBits.toNat % twoTo 52
      = fullMantissa n % 2 ^ 52 := by
    rw [hbits, h52]
    omega
  rw [ofBits, hbiased, hfraction, if_neg (by omega)]
  refine ⟨hpos, hlt, ?_, ?_⟩
  · show twoTo 52 + fullMantissa n % 2 ^ 52 = _
    omega
  · show ((n.log2 + 1023 : Nat) : Int) - 1075 = _
    omega

/-- The magnitude of a whole number is the number of its digits. -/
theorem IsWhole.magnitude_eq (h : b.IsWhole n) : b.magnitude = digitCount n := by
  have hlog : n.log2 < 53 := (Nat.log2_lt h.pos.ne').2 h.lt
  have hup : b.exponent.toNat = 0 := by
    rw [h.exponent]
    omega
  have hdown : (-b.exponent).toNat = 52 - n.log2 := by
    rw [h.exponent]
    omega
  have hscaled : ∀ p, b.mantissa * twoTo b.exponent.toNat * tenTo p / twoTo (-b.exponent).toNat
      = n * 10 ^ p := by
    intro p
    rw [hup, hdown, h.mantissa, fullMantissa]
    show n * 2 ^ (52 - n.log2) * 1 * 10 ^ p / 2 ^ (52 - n.log2) = _
    rw [Nat.mul_one, Nat.mul_right_comm]
    exact Nat.mul_div_cancel _ (Nat.two_pow_pos _)
  rw [magnitude, hscaled, digitCount_mul_tenTo h.pos, Nat.cast_add, Int.add_sub_cancel]

/-- **On a grid of whole numbers a whole number is found exactly if it stands there.** -/
theorem IsWhole.onGrid?_eq (h : b.IsWhole n) (k : Nat) :
    b.onGrid? k = if 10 ^ k ∣ n then some (n / 10 ^ k) else none := by
  have hlog : n.log2 < 53 := (Nat.log2_lt h.pos.ne').2 h.lt
  have hunit : (b.exponent - 2).toNat = 0 := by
    rw [h.exponent]
    omega
  have hpower : (2 - b.exponent).toNat = 54 - n.log2 := by
    rw [h.exponent]
    omega
  have hdown : (-(k : Int)).toNat = 0 := by omega
  have hvalue : 4 * fullMantissa n = n * 2 ^ (54 - n.log2) := by
    have hbits : 54 - n.log2 = 52 - n.log2 + 2 := by omega
    rw [hbits, Nat.pow_add, fullMantissa]
    ring
  have hstep : tenTo k * twoTo (54 - n.log2) = 10 ^ k * 2 ^ (54 - n.log2) := rfl
  have hone : twoTo 0 * tenTo 0 = 1 := rfl
  have hu : 4 ≤ 2 ^ (54 - n.log2) := Nat.pow_le_pow_right (n := 2) (i := 2) (by decide) (by omega)
  have hp : 0 < 10 ^ k := Nat.pow_pos (by decide)
  rw [onGrid?, hunit, hpower, hdown, Int.toNat_natCast, h.mantissa, hstep, hone, hvalue]
  simp only [Nat.mul_one]
  generalize 2 ^ (54 - n.log2) = u at hu
  generalize 10 ^ k = p at hp
  rw [Nat.mul_div_mul_right _ _ (by omega), Nat.add_mul, Nat.one_mul]
  -- The number is `n / p` steps, and `n % p` units more.
  have hsplit : n * u = n / p * (p * u) + n % p * u := by
    rw [← Nat.mul_assoc, ← Nat.add_mul, Nat.mul_comm (n / p), Nat.div_add_mod]
  have hrest : n % p * u + u ≤ p * u := by
    rw [← Nat.succ_mul]
    exact Nat.mul_le_mul_right u (Nat.mod_lt n hp)
  have hpos : 0 < n * u := Nat.mul_pos h.pos (by omega)
  rw [hsplit] at hpos ⊢
  generalize n / p * (p * u) = base at hpos ⊢
  by_cases hdvd : p ∣ n
  · have hzero : n % p = 0 := Nat.mod_eq_zero_of_dvd hdvd
    rw [hzero, Nat.zero_mul] at hrest hpos ⊢
    rw [if_pos hdvd, if_pos, if_neg]
    · split <;> rw [Bool.and_eq_true, decide_eq_true_eq, decide_eq_true_eq] <;> omega
    · split <;> rw [Bool.and_eq_true, decide_eq_true_eq, decide_eq_true_eq] <;> split <;> omega
  · have hmore : u ≤ n % p * u :=
      Nat.le_mul_of_pos_left u (Nat.pos_of_ne_zero fun h0 ↦ hdvd (Nat.dvd_of_mod_eq_zero h0))
    rw [if_neg hdvd, if_neg, if_neg]
    · split <;> rw [Bool.and_eq_true, decide_eq_true_eq, decide_eq_true_eq] <;> omega
    · split <;> rw [Bool.and_eq_true, decide_eq_true_eq, decide_eq_true_eq] <;> split <;> omega

end Binary

/-! ## The search -/

/-- The decimal is a whole number, with zeros left out at its end. -/
def Scientific.IsWhole (d : Scientific) (n : Nat) : Prop :=
  ∃ k : Nat, d.exponent = k ∧ d.digits * 10 ^ k = n

/-- Of the grids that are left, the last one is that of the whole numbers, so there is one on which
the number is found. -/
theorem Binary.IsWhole.search {b : Binary} {n : Nat} (h : b.IsWhole n) (hcount : digitCount n ≤ 17)
    {left : Nat} (hleft : 17 - left ≤ digitCount n) (hle : left ≤ 16) :
    (b.search (left + 1)).IsWhole n := by
  induction left with
  | zero =>
    have hscale : b.magnitude - ((17 - 0 : Nat) : Int) = (0 : Nat) := by
      rw [h.magnitude_eq]
      omega
    rw [Binary.search, hscale, h.onGrid?_eq, if_pos (by simp)]
    exact ⟨0, rfl, by simp⟩
  | succ left ih =>
    have hscale : b.magnitude - ((17 - (left + 1) : Nat) : Int)
        = (digitCount n - (17 - (left + 1)) : Nat) := by
      rw [h.magnitude_eq]
      omega
    rw [Binary.search, hscale, h.onGrid?_eq]
    by_cases hdvd : 10 ^ (digitCount n - (17 - (left + 1))) ∣ n
    · rw [if_pos hdvd]
      exact ⟨_, rfl, Nat.div_mul_cancel hdvd⟩
    · rw [if_neg hdvd]
      have hne : digitCount n - (17 - (left + 1)) ≠ 0 := fun h0 ↦ hdvd (by rw [h0]; simp)
      exact ih (by omega) (by omega)

namespace Scientific

variable {d : Scientific} {n : Nat}

theorem IsWhole.dropZeros (h : d.IsWhole n) (fuel : Nat) : (d.dropZeros fuel).IsWhole n := by
  induction fuel generalizing d with
  | zero => exact h
  | succ fuel ih =>
    rw [Scientific.dropZeros]
    split
    · next hzero =>
      obtain ⟨k, hk, hdigits⟩ := h
      rw [Bool.and_eq_true, decide_eq_true_eq] at hzero
      refine ih ⟨k + 1, by rw [hk]; rfl, ?_⟩
      have hten : d.digits / 10 * 10 = d.digits :=
        Nat.div_mul_cancel (Nat.dvd_of_mod_eq_zero hzero.1)
      calc d.digits / 10 * 10 ^ (k + 1) = d.digits / 10 * 10 * 10 ^ k := by ring
        _ = n := by rw [hten, hdigits]
    · exact h

/-- A whole number of up to sixteen digits is written with all of them. -/
theorem IsWhole.render (h : d.IsWhole n) (hpos : 0 < n) (hcount : digitCount n ≤ 16) :
    d.render = digitsOf n ++ ['.', '0'] := by
  obtain ⟨k, hk, hdigits⟩ := h
  have hne : 0 < d.digits := by
    rw [← hdigits] at hpos
    exact Nat.pos_of_mul_pos_right hpos
  have hlength : digitCount n = (digitsOf d.digits).length + k := by
    rw [← hdigits, digitCount_mul_tenTo hne]
    rfl
  rw [Scientific.render]
  dsimp only
  rw [hk, if_pos (by omega), Int.toNat_natCast, ← hdigits, digitsOf_mul_tenTo hne]

end Scientific

/-- **How the double of a whole number is written**, if it has up to sixteen digits. -/
theorem renderFloat_whole {n : Nat} (hpos : 0 < n) (hlt : n < 2 ^ 53) (hcount : digitCount n ≤ 16)
    (negative : Bool) : renderFloat (if negative then -ofWhole n else ofWhole n)
      = (if negative then ['-'] else []) ++ (digitsOf n ++ ['.', '0']) := by
  have hwhole := Binary.isWhole_ofBits hpos hlt negative
  have hshortest : (shortest (if negative then -ofWhole n else ofWhole n).toBits).render
      = digitsOf n ++ ['.', '0'] := by
    have hfirst : 17 - 16 ≤ digitCount n := Nat.length_toDigits_pos
    exact ((hwhole.search (by omega) hfirst le_rfl).dropZeros 17).render hpos hcount
  have hbits := toNat_toBits_signed hpos hlt negative
  have hlog := (Nat.log2_lt hpos.ne').2 hlt
  have h63 : twoTo 63 = 2 ^ 63 := rfl
  rw [renderFloat, hshortest, hbits, h63, if_neg (by omega)]
  cases negative with
  | false =>
    have hsign : false.toNat = 0 := rfl
    rw [if_neg (by omega), if_neg Bool.false_ne_true]
  | true =>
    have hsign : true.toNat = 1 := rfl
    rw [if_pos (by omega), if_pos rfl]

theorem renderFloat_zero (negative : Bool) :
    renderFloat (if negative then -ofWhole 0 else ofWhole 0)
      = (if negative then ['-'] else []) ++ (digitsOf 0 ++ ['.', '0']) := by
  cases negative <;> decide

end Glossopoeia.Decimal
