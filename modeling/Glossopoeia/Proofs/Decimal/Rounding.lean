import Glossopoeia.Proofs.Decimal.Double

/-!
# Rounding that changes something

Of a mantissa with too many bits those that are too many are shifted out, and the last one that is
left may be raised.  It is raised only if what was shifted out is at least half of what it counts,
so the result is above the number by no more than that half (`roundWithAccuracy_near`).
-/

set_option autoImplicit false

namespace Glossopoeia.Decimal

open Float.Model Float.Model.UnpackedFloat

/-! ## Bits that are shifted out -/

theorem mantissa_shiftRight (em : ExtendedMantissa) (k : Nat) :
    (em >>> k).mantissa = em.mantissa / 2 ^ k := by
  show (Nat.repeat ExtendedMantissa.shiftRightOne k em).mantissa = _
  induction k with
  | zero => rw [Nat.repeat, Nat.pow_zero, Nat.div_one]
  | succ k ih =>
    rw [Nat.repeat, ExtendedMantissa.shiftRightOne, ih, Nat.div_div_eq_div_mul, Nat.pow_succ]

/-- The last bit that was shifted out. -/
theorem roundBit_shiftRight (em : ExtendedMantissa) (k : Nat) :
    (em >>> (k + 1)).roundBit = (em.mantissa / 2 ^ k % 2 != 0) := by
  rw [← mantissa_shiftRight em k]
  rfl

/-- A mantissa is raised by at most one, and only if the last bit that was shifted out is set. -/
theorem roundedMantissa_eq (em : ExtendedMantissa) : em.roundedMantissa = em.mantissa ∨
    em.roundedMantissa = em.mantissa + 1 ∧ em.roundBit = true := by
  obtain ⟨m, round, sticky⟩ := em
  cases round <;> cases sticky <;>
    simp [ExtendedMantissa.roundedMantissa, ExtendedMantissa.accuracy,
      Accuracy.roundToNearestEven]
  omega

/-- What is left of a mantissa after `k` bits are shifted out, rounded. -/
def shiftedRounded (a k : Nat) : Nat :=
  (ExtendedMantissa.ofMantissaAndAccuracy a .exact >>> k).roundedMantissa

theorem shiftedRounded_eq (a k : Nat) : shiftedRounded a k = a / 2 ^ k ∨
    shiftedRounded a k = a / 2 ^ k + 1 ∧ (2 * (a / 2 ^ k) + 1) * 2 ^ k ≤ 2 * a := by
  have hmantissa := mantissa_shiftRight (ExtendedMantissa.ofMantissaAndAccuracy a .exact) k
  rcases roundedMantissa_eq (ExtendedMantissa.ofMantissaAndAccuracy a .exact >>> k) with
    h | ⟨h, hbit⟩
  · exact .inl (h.trans hmantissa)
  · refine .inr ⟨h.trans (congrArg (· + 1) hmantissa), ?_⟩
    cases k with
    | zero => cases hbit
    | succ k =>
      rw [roundBit_shiftRight] at hbit
      have hodd : a / 2 ^ k % 2 ≠ 0 := bne_iff_ne.1 hbit
      have hhalf : a / 2 ^ (k + 1) = a / 2 ^ k / 2 := by rw [Nat.pow_succ, Nat.div_div_eq_div_mul]
      have hle := Nat.div_mul_le_self a (2 ^ k)
      have hsum : 2 * (a / 2 ^ (k + 1)) + 1 = a / 2 ^ k := by omega
      calc (2 * (a / 2 ^ (k + 1)) + 1) * 2 ^ (k + 1) = 2 * (a / 2 ^ k * 2 ^ k) := by
            rw [hsum, Nat.pow_succ]
            ring
        _ ≤ 2 * a := by omega

/-! ## Rounding -/

/-- Of a number with `k` bits more than fit, 53 are left when `k` are shifted out. -/
theorem div_two_pow_bounds {a k : Nat} (ha : a.log2 = 52 + k) :
    2 ^ 52 ≤ a / 2 ^ k ∧ a / 2 ^ k < 2 ^ 53 := by
  have hne : a ≠ 0 := by
    rintro rfl
    rw [Nat.log2_zero] at ha
    omega
  obtain ⟨hlow, hhigh⟩ := (Nat.log2_eq_iff hne).1 ha
  rw [Nat.le_div_iff_mul_le (Nat.two_pow_pos k), Nat.div_lt_iff_lt_mul (Nat.two_pow_pos k),
    ← Nat.pow_add, ← Nat.pow_add]
  exact ⟨hlow, lt_of_lt_of_eq hhigh (by congr 1; omega)⟩

/-- A mantissa that was rounded up to 54 bits can only be a power of two; its last bit is shifted
out as well. -/
theorem shiftToTargetExponent_shiftedRounded {a k : Nat} (ha : a.log2 = 52 + k) {e : Int}
    (he : -1022 ≤ e) :
    ∃ m i, shiftToTargetExponent Format.binary64 (shiftedRounded a k) (e + k) .exact
        = (⟨m, false, false⟩, e + (i : Nat)) ∧ m.log2 = 52 ∧
      m * 2 ^ i = shiftedRounded a k * 2 ^ k ∧
      (i = k ∨ i = k + 1 ∧ shiftedRounded a k = 2 ^ 53) := by
  obtain ⟨hlow, hhigh⟩ := div_two_pow_bounds ha
  by_cases hlt : shiftedRounded a k < 2 ^ 53
  · have hlog : (shiftedRounded a k).log2 = 52 := by
      have hge : 2 ^ 52 ≤ shiftedRounded a k := by
        rcases shiftedRounded_eq a k with h | ⟨h, _⟩ <;> omega
      exact (Nat.log2_eq_iff (by omega)).2 ⟨hge, hlt⟩
    have hsame := shiftToTargetExponent_exact hlog 0 (e := e + k) (by omega)
    rw [Nat.pow_zero, Nat.mul_one, Nat.cast_zero, Int.add_zero] at hsame
    exact ⟨_, k, hsame, hlog, rfl, .inl rfl⟩
  · have heq : shiftedRounded a k = 2 ^ 53 := by
      rcases shiftedRounded_eq a k with h | ⟨h, _⟩ <;> omega
    have hlog : (2 ^ 52).log2 = 52 := Nat.log2_two_pow
    have hmore := shiftToTargetExponent_exact hlog 1 (e := e + k) (by omega)
    refine ⟨2 ^ 52, k + 1, ?_, hlog, ?_, .inr ⟨rfl, heq⟩⟩
    · rw [heq]
      refine hmore.trans ?_
      rw [Nat.cast_one, Nat.cast_add, Nat.cast_one, Int.add_assoc]
    · rw [heq, Nat.pow_succ]
      ring

/-- **A rounded number** is above the number by at most half of what its last bit counts.  It has an
exponent of one more than the number asks for only if all of its bits are set, and the next one. -/
theorem roundWithAccuracy_near (s : Sign) {a k : Nat} (ha : a.log2 = 52 + k) {e : Int}
    (he : -1022 ≤ e) : ∃ m i hpos, roundWithAccuracy Format.binary64 s a e .exact
      = .finite s m (e + (i : Nat)) hpos ∧ m.log2 = 52 ∧ 2 * (m * 2 ^ i) ≤ 2 * a + 2 ^ k ∧
        (i = k ∨ i = k + 1 ∧ (2 ^ 54 - 1) * 2 ^ k ≤ 2 * a) := by
  obtain ⟨hlow, hhigh⟩ := div_two_pow_bounds ha
  obtain ⟨m, i, hm, hlog, hvalue, hi⟩ := shiftToTargetExponent_shiftedRounded ha he
  refine ⟨m, i, Nat.pos_of_ne_zero (ne_zero_of_log2 hlog), ?_, hlog, ?_, ?_⟩
  · have hshift : shiftToTargetExponent Format.binary64 a e .exact
        = (ExtendedMantissa.ofMantissaAndAccuracy a .exact >>> k, e + k) := by
      have hamount : (e + (((52 + k : Nat) : Int) - 52) - e).toNat = k := by omega
      rw [shiftToTargetExponent, targetExponent_totalExponent _ (by omega), ha, shiftToExponent,
        hamount]
    have hrounded : (ExtendedMantissa.ofMantissaAndAccuracy a .exact >>> k).roundedMantissa
        = shiftedRounded a k := rfl
    rw [roundWithAccuracy, hshift]
    dsimp only
    rw [hrounded, hm]
    exact dif_neg (ne_zero_of_log2 hlog)
  · rw [hvalue]
    rcases shiftedRounded_eq a k with h | ⟨h, hhalf⟩
    · rw [h]
      exact (Nat.mul_le_mul_left 2 (Nat.div_mul_le_self a (2 ^ k))).trans (Nat.le_add_right _ _)
    · rw [h]
      rw [Nat.add_mul, Nat.mul_assoc] at hhalf
      rw [Nat.add_mul]
      omega
  · refine hi.imp_right fun hcarry ↦ ⟨hcarry.1, ?_⟩
    have heq := hcarry.2
    rcases shiftedRounded_eq a k with h | ⟨h, hhalf⟩
    · omega
    · have hq : 2 * (a / 2 ^ k) + 1 = 2 ^ 54 - 1 := by omega
      rwa [hq] at hhalf

theorem unpack_modelPack {m : Nat} (hlog : m.log2 = 52) (s : Sign) {e : Int} (he : -1074 ≤ e)
    (he' : e ≤ 971) (hm : 0 < m) :
    (Float.Model.pack (.finite s m e hm)).unpack = .finite s m e hm := by
  rw [Float.Model.unpack, Float.Model.pack]
  exact unpack_pack hlog s he he' hm

/-! ## Doubles of whole numbers that are too long -/

theorem log2_mono {a b : Nat} (h : a ≤ b) : a.log2 ≤ b.log2 := by
  rw [Nat.log2_eq_log_two, Nat.log2_eq_log_two]
  exact Nat.log_mono_right h

/-- Twice as much as the double of a whole number can be. -/
def twiceAtMost (n : Nat) : Nat := 2 * n + if n < 2 ^ 53 then 0 else 2 ^ (n.log2 - 52)

theorem twiceAtMost_mono {a b : Nat} (h : a ≤ b) : twiceAtMost a ≤ twiceAtMost b := by
  have hpow : 2 ^ (a.log2 - 52) ≤ 2 ^ (b.log2 - 52) :=
    Nat.pow_le_pow_right (by decide) (Nat.sub_le_sub_right (log2_mono h) 52)
  have hpos := Nat.two_pow_pos (b.log2 - 52)
  rw [twiceAtMost, twiceAtMost]
  split <;> split <;> omega

/-- The double of a whole number is that number, rounded. -/
theorem toModel_ofWhole_eq_round {n : Nat} (hpos : 0 < n) (hlt : n < 2 ^ 64) :
    (ofWhole n).toModel
      = Float.Model.pack (UnpackedFloat.round Format.binary64 .positive n 0) := by
  have hn : (UInt64.ofNat n).toNat = n := by rw [UInt64.toNat_ofNat', Nat.mod_eq_of_lt hlt]
  have hgt : compare (n : Int) 0 = .gt := Int.compare_eq_gt.2 (Int.natCast_pos.2 hpos)
  show Float.Model.pack (UnpackedFloat.ofUInt64 Format.binary64 (UInt64.ofNat n)) = _
  rw [UnpackedFloat.ofUInt64, UnpackedFloat.ofNat, UnpackedFloat.ofInt, hn, UnpackedFloat.normalize,
    hgt]
  rfl

/-- The double of a whole number is a normal one and no greater than that. -/
theorem unpack_ofWhole_near {n : Nat} (hpos : 0 < n) (hlt : n < 2 ^ 64) : ∃ m e hm,
    (ofWhole n).toModel.unpack = .finite .positive m e hm ∧ m.log2 = 52 ∧ -52 ≤ e ∧
      2 * (m * 2 ^ (e + 52).toNat) ≤ twiceAtMost n * 2 ^ 52 := by
  by_cases hshort : n < 2 ^ 53
  · have hunpack := unpack_ofWhole hpos hshort (i := 0) (by omega)
    rw [Nat.pow_zero, Nat.mul_one] at hunpack
    have hlog := (Nat.log2_lt hpos.ne').2 hshort
    refine ⟨_, _, _, hunpack, log2_fullMantissa hpos hshort, by omega, ?_⟩
    have hexponent : (((0 : Nat) : Int) - ((52 - n.log2 : Nat) : Int) + 52).toNat = n.log2 := by
      omega
    rw [hexponent, twiceAtMost, if_pos hshort, fullMantissa, Nat.mul_assoc n, ← Nat.pow_add,
      Nat.sub_add_cancel (by omega), Nat.add_zero, Nat.mul_assoc]
  · obtain ⟨k, hk⟩ : ∃ k, n.log2 = 52 + k := by
      have hlog : 53 ≤ n.log2 := (Nat.le_log2 hpos.ne').2 (not_lt.1 hshort)
      exact ⟨n.log2 - 52, by omega⟩
    have hle : n.log2 < 64 := (Nat.log2_lt hpos.ne').2 hlt
    obtain ⟨m, i, hm, hround, hlog, hvalue, hi⟩ :=
      roundWithAccuracy_near .positive hk (e := 0) (by omega)
    have hround' : UnpackedFloat.round Format.binary64 .positive n 0
        = .finite .positive m (i : Nat) hm := by
      have hamount : (0 - (0 + (((52 + k : Nat) : Int) - 52))).toNat = 0 := by omega
      rw [UnpackedFloat.round, targetExponent_totalExponent _ (by omega), hk, decreaseExponent,
        hamount]
      dsimp only
      rw [Nat.shiftLeft_zero, Nat.cast_zero, Int.sub_zero, hround, Int.zero_add]
    refine ⟨m, (i : Nat), hm, ?_, hlog, by omega, ?_⟩
    · rw [toModel_ofWhole_eq_round hpos hlt, hround']
      exact unpack_modelPack hlog .positive (by omega) (by omega) hm
    · have hexponent : ((i : Int) + 52).toNat = i + 52 := by omega
      rw [hexponent, twiceAtMost, if_neg hshort, hk, Nat.add_sub_cancel_left, Nat.pow_add,
        ← Nat.mul_assoc, ← Nat.mul_assoc, Nat.mul_assoc 2 m]
      exact Nat.mul_le_mul_right _ hvalue

/-- A number below the greatest double is rounded to one with an exponent in range, also if its
mantissa is raised to the next power of two. -/
theorem rounded_exponent_le {a k c i : Nat} (ha : a.log2 = 52 + k) (hpos : 0 < a)
    (hlt : a * 2 ^ c < (2 ^ 54 - 1) * 2 ^ 1074)
    (hi : i = k ∨ i = k + 1 ∧ (2 ^ 54 - 1) * 2 ^ k ≤ 2 * a) : i + c ≤ 1075 := by
  have hfirst : k + c ≤ 1075 := by
    have hge : 2 ^ (52 + k) ≤ a := by
      rw [← ha]
      exact Nat.log2_self_le hpos.ne'
    have hpow : 2 ^ (52 + k + c) < 2 ^ 1128 := by
      rw [Nat.pow_add]
      refine lt_of_le_of_lt (Nat.mul_le_mul_right _ hge) (hlt.trans ?_)
      decide +kernel
    have := (Nat.pow_lt_pow_iff_right (by decide)).1 hpow
    omega
  rcases hi with rfl | ⟨rfl, hall⟩
  · exact hfirst
  · have hless : k + c < 1075 := by
      refine lt_of_le_of_ne hfirst fun heq ↦ ?_
      have hmul := Nat.mul_le_mul_right (2 ^ c) hall
      rw [Nat.mul_assoc, ← Nat.pow_add, heq, Nat.mul_assoc 2] at hmul
      omega
    omega

/-- **A product below the greatest double is not infinite.**  Both factors are counted in units of
`2 ^ 52`. -/
theorem isInf_mul_eq_false {x y : Float} {s s' : Sign} {m m' : Nat} {e e' : Int} {hm : 0 < m}
    {hm' : 0 < m'} (hx : x.toModel.unpack = .finite s m e hm)
    (hy : y.toModel.unpack = .finite s' m' e' hm') (hlog : m.log2 = 52) (hlog' : m'.log2 = 52)
    (he : -52 ≤ e) (he' : -52 ≤ e')
    (hlt : m * 2 ^ (e + 52).toNat * (m' * 2 ^ (e' + 52).toNat) < (2 ^ 54 - 1) * 2 ^ 1074) :
    (x * y).isInf = false := by
  have hbounds := (Nat.log2_eq_iff hm.ne').1 hlog
  have hbounds' := (Nat.log2_eq_iff hm'.ne').1 hlog'
  have hpos := Nat.mul_pos hm hm'
  obtain ⟨k, hk⟩ : ∃ k, (m * m').log2 = 52 + k := by
    have hge : 52 ≤ (m * m').log2 := (Nat.le_log2 hpos.ne').2
      (hbounds.1.trans (Nat.le_mul_of_pos_right m hm'))
    exact ⟨(m * m').log2 - 52, by omega⟩
  obtain ⟨m'', i, hm'', hround, hlog'', -, hi⟩ :=
    roundWithAccuracy_near (s * s') hk (e := e + e') (by omega)
  -- All that the product counts is in the exponent `c`.
  obtain ⟨c, hc⟩ : ∃ c : Nat, e + e' = (c : Int) - 104 := ⟨(e + e' + 104).toNat, by omega⟩
  have hproduct : m * m' * 2 ^ c < (2 ^ 54 - 1) * 2 ^ 1074 := by
    have hsum : (e + 52).toNat + (e' + 52).toNat = c := by omega
    refine lt_of_eq_of_lt ?_ hlt
    rw [← hsum, Nat.pow_add]
    ring
  have hexponent : e + e' + (i : Nat) ≤ 971 := by
    have hle := rounded_exponent_le hk hpos hproduct hi
    omega
  have hmul : (x * y).toModel.unpack = .finite (s * s') m'' (e + e' + (i : Nat)) hm'' := by
    show Float.Model.unpack (Float.Model.pack
      (UnpackedFloat.mul Format.binary64 x.toModel.unpack y.toModel.unpack)) = _
    rw [hx, hy, UnpackedFloat.mul, hround]
    exact unpack_modelPack hlog'' (s * s') (by omega) hexponent hm''
  show (x * y).toModel.unpack.isInf = false
  rw [hmul]
  rfl

end Glossopoeia.Decimal
