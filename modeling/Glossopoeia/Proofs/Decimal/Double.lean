import Mathlib
import Glossopoeia.Decimal.Shortest

/-!
# The doubles of whole numbers

A whole number below `2 ^ 53` is a double, with all its bits in the mantissa and zeros after them.
The same holds of an even one below `2 ^ 54`, since its last bit is not needed.  So ten times a
number up to `2 ^ 54 / 10` is a double without rounding, and a division by ten brings the number
back (`ofWhole_div_ten`).

The doubles of the core library are bits with operations defined on them.  What is shown here goes
through its unpacked form: a sign, a mantissa and an exponent of two.  The mantissa of a normal
double has 53 bits, that is, its logarithm is 52.
-/

set_option autoImplicit false

namespace Glossopoeia.Decimal

open Float.Model Float.Model.UnpackedFloat

/-! ## Rounding that changes nothing -/

theorem log2_mul_two_pow {a : Nat} (ha : a ≠ 0) (j : Nat) : (a * 2 ^ j).log2 = a.log2 + j := by
  induction j with
  | zero => rw [Nat.pow_zero, Nat.mul_one, Nat.add_zero]
  | succ j ih =>
    have hne : a * 2 ^ j ≠ 0 := Nat.mul_ne_zero ha (Nat.two_pow_pos j).ne'
    rw [Nat.pow_succ, ← Nat.mul_assoc, Nat.mul_comm _ 2, Nat.log2_two_mul hne, ih, Nat.add_assoc]

theorem ne_zero_of_log2 {m : Nat} (hm : m.log2 = 52) : m ≠ 0 := by
  rintro rfl
  exact absurd hm (by decide)

/-- Zeros at the end can be shifted out without loss. -/
theorem shiftRight_exact (a j : Nat) :
    ExtendedMantissa.ofMantissaAndAccuracy (a * 2 ^ j) .exact >>> j = ⟨a, false, false⟩ := by
  show Nat.repeat ExtendedMantissa.shiftRightOne j ⟨a * 2 ^ j, false, false⟩ = _
  induction j generalizing a with
  | zero => rw [Nat.pow_zero, Nat.mul_one, Nat.repeat]
  | succ j ih =>
    have hdouble : a * 2 ^ (j + 1) = a * 2 * 2 ^ j := by ring
    rw [hdouble, Nat.repeat, ih, ExtendedMantissa.shiftRightOne]
    simp

/-- The exponent at which a mantissa has 53 bits. -/
theorem targetExponent_totalExponent (a : Nat) {e : Int} (he : -1022 ≤ a.log2 + e) :
    Format.binary64.targetExponent (totalExponent a e) = e + (a.log2 - 52) := by
  rw [Format.targetExponent, totalExponent]
  simp only [Format.minExponent, Format.mantissaBits]
  omega

section Exact

variable {m : Nat} (hm : m.log2 = 52) (s : Sign)

include hm

theorem shiftToTargetExponent_exact (i : Nat) {e : Int} (he : -1022 ≤ e) :
    shiftToTargetExponent Format.binary64 (m * 2 ^ i) e .exact = (⟨m, false, false⟩, e + i) := by
  have hlog : (m * 2 ^ i).log2 = 52 + i := by rw [log2_mul_two_pow (ne_zero_of_log2 hm), hm]
  have hamount : (e + (((52 + i : Nat) : Int) - 52) - e).toNat = i := by omega
  rw [shiftToTargetExponent, targetExponent_totalExponent _ (by rw [hlog]; omega), hlog,
    shiftToExponent, hamount, shiftRight_exact]

/-- A mantissa of 53 bits with zeros after them is not rounded. -/
theorem roundWithAccuracy_exact (i : Nat) {e : Int} (he : -1022 ≤ e) :
    roundWithAccuracy Format.binary64 s (m * 2 ^ i) e .exact
      = .finite s m (e + i) (Nat.pos_of_ne_zero (ne_zero_of_log2 hm)) := by
  have hsecond : shiftToTargetExponent Format.binary64 m (e + i) .exact
      = (⟨m, false, false⟩, e + i) := by
    have h := shiftToTargetExponent_exact hm 0 (e := e + i) (by omega)
    rwa [Nat.pow_zero, Nat.mul_one, Nat.cast_zero, Int.add_zero] at h
  have hrounded : (⟨m, false, false⟩ : ExtendedMantissa).roundedMantissa = m := rfl
  rw [roundWithAccuracy, shiftToTargetExponent_exact hm i he]
  dsimp only
  rw [hrounded, hsecond]
  exact dif_neg (ne_zero_of_log2 hm)

/-- A number whose bits fit into a mantissa, but for zeros after them, is not rounded. -/
theorem round_exact {a j : Nat} (ha : m = a * 2 ^ j) (i : Nat) :
    UnpackedFloat.round Format.binary64 s (a * 2 ^ i) 0
      = .finite s m (i - j) (Nat.pos_of_ne_zero (ne_zero_of_log2 hm)) := by
  have hne : a ≠ 0 := fun h ↦ ne_zero_of_log2 hm (by rw [ha, h, Nat.zero_mul])
  have hbits : a.log2 + j = 52 := by rw [← log2_mul_two_pow hne, ← ha, hm]
  have hamount : (0 - (0 + (((a.log2 + i : Nat) : Int) - 52))).toNat = j - i := by omega
  -- Either the mantissa is filled up with zeros, or there are zeros to spare.
  have hshift : a * 2 ^ i * 2 ^ (j - i) = m * 2 ^ (i - j) := by
    rw [ha, Nat.mul_assoc, Nat.mul_assoc, ← Nat.pow_add, ← Nat.pow_add]
    congr 2
    omega
  rw [UnpackedFloat.round, targetExponent_totalExponent _ (by omega), log2_mul_two_pow hne,
    decreaseExponent, hamount]
  dsimp only
  rw [Nat.shiftLeft_eq, hshift, roundWithAccuracy_exact hm s _ (by omega)]
  congr 1
  omega

omit s in
/-- The quotient of two mantissas of 53 bits, if it comes out even. -/
theorem divCore_exact {m' q : Nat} (hm' : m'.log2 = 52) (hq : m * 2 ^ 53 = q * m') {e e' : Int}
    (he : -1000 ≤ e - e') :
    divCore Format.binary64 m e m' e' = (q, e - e' - 53, .exact) := by
  have hpos : 0 < m' := Nat.pos_of_ne_zero (ne_zero_of_log2 hm')
  have htarget : Format.binary64.targetExponent (totalExponent m e - totalExponent m' e')
      = e - e' - 53 := by
    rw [totalExponent, totalExponent, hm, hm', Format.targetExponent]
    simp only [Format.minExponent, Format.mantissaBits]
    omega
  have hamount : (e - e' - (e - e' - 53)).toNat = 53 := by omega
  rw [divCore, htarget, min_eq_right (by omega), hamount,
    Nat.shiftLeft_eq, hq, Nat.mul_div_cancel q hpos, Nat.mul_mod_left]
  rfl

/-! ## Bits -/

omit hm in
theorem toNat_append {v w : Nat} (x : BitVec v) (y : BitVec w) :
    (x ++ y).toNat = x.toNat * 2 ^ w + y.toNat := by
  rw [BitVec.toNat_append, ← Nat.shiftLeft_add_eq_or_of_lt y.isLt, Nat.shiftLeft_eq]

variable {e : Int} (he : -1074 ≤ e) (he' : e ≤ 971) (hpos : 0 < m)

include he he'

theorem pack_eq : UnpackedFloat.pack Format.binary64 (.finite s m e hpos)
    = packComponents Format.binary64 s (BitVec.ofNat 11 (e + 1075).toNat) (BitVec.ofNat 52 m) := by
  have hbiased : (e + (Format.exponentBias Format.binary64 : Int)
      + (Format.mantissaBitsWithoutImplicit Format.binary64 : Int)).toNat = (e + 1075).toNat := by
    show (e + 1023 + 52).toNat = _
    omega
  rw [pack.eq_4, hbiased]
  dsimp only
  rw [if_neg (by omega), if_pos (by rw [hm]; rfl)]

/-- The bits of a normal double: the sign, the exponent and all bits of the mantissa but the
first. -/
theorem toNat_pack : (UnpackedFloat.pack Format.binary64 (.finite s m e hpos)).toNat
    = s.toBitVec.toNat * 2 ^ 63 + (e + 1075).toNat * 2 ^ 52 + m % 2 ^ 52 := by
  have hexponent : (BitVec.ofNat 11 (e + 1075).toNat).toNat = (e + 1075).toNat := by
    rw [BitVec.toNat_ofNat, Nat.mod_eq_of_lt (by omega)]
  rw [pack_eq hm s he he', packComponents]
  show ((s.toBitVec ++ BitVec.ofNat 11 (e + 1075).toNat) ++ BitVec.ofNat 52 m).toNat = _
  rw [toNat_append, toNat_append, hexponent, BitVec.toNat_ofNat]
  omega

/-- A normal double is unpacked as it was packed. -/
theorem unpack_pack : UnpackedFloat.unpack Format.binary64
    (UnpackedFloat.pack Format.binary64 (.finite s m e hpos)) = .finite s m e hpos := by
  rw [pack_eq hm s he he']
  generalize hbits : packComponents Format.binary64 s (BitVec.ofNat 11 (e + 1075).toNat)
    (BitVec.ofNat 52 m) = bits
  have hsign : unpackSign bits = s.toBitVec := by rw [← hbits, unpackSign_packComponents]
  have hexponent : unpackExponent bits = BitVec.ofNat 11 (e + 1075).toNat :=
    hbits ▸ unpackExponent_packComponents
  have hmantissa : unpackMantissa bits = BitVec.ofNat 52 m := hbits ▸ unpackMantissa_packComponents
  have hfield : (BitVec.ofNat 11 (e + 1075).toNat).toNat = (e + 1075).toNat := by
    rw [BitVec.toNat_ofNat, Nat.mod_eq_of_lt (by omega)]
  have hnormal : ∀ b : BitVec 11, b.toNat ≠ (e + 1075).toNat → unpackExponent bits ≠ b := by
    rintro b hb rfl
    exact hb (by rw [hexponent, hfield])
  have hbounds := (Nat.log2_eq_iff hpos.ne').1 hm
  have hall : (-BitVec.ofNat Format.binary64.exponentBits 1).toNat = 2047 := rfl
  have hnone : (BitVec.ofNat Format.binary64.exponentBits 0).toNat = 0 := rfl
  rw [UnpackedFloat.unpack.eq_1, if_neg (hnormal _ (by omega)), if_neg (hnormal _ (by omega)),
    UnpackedFloat.finite.injEq, hsign, Sign.ofBitVec_toBitVec, hexponent, hmantissa]
  refine ⟨rfl, ?_, ?_⟩
  · rw [toNat_append, BitVec.toNat_ofNat]
    show 1 * 2 ^ 52 + m % 2 ^ 52 = m
    omega
  · rw [hfield]
    show ((e + 1075).toNat : Int) - (1023 + 52) = e
    omega

end Exact

/-! ## The doubles themselves -/

/-- The double nearest to a whole number of 64 bits. -/
def ofWhole (n : Nat) : Float := (UInt64.ofNat n).toFloat

/-- The bits of a whole number, followed by as many zeros as it takes to have 53 of them. -/
def fullMantissa (n : Nat) : Nat := n * 2 ^ (52 - n.log2)

section Whole

variable {a : Nat} (hpos : 0 < a) (hlt : a < 2 ^ 53)

include hpos hlt

theorem log2_fullMantissa : (fullMantissa a).log2 = 52 := by
  have := (Nat.log2_lt hpos.ne').2 hlt
  rw [fullMantissa, log2_mul_two_pow hpos.ne']
  omega

theorem fullMantissa_pos : 0 < fullMantissa a :=
  Nat.pos_of_ne_zero (ne_zero_of_log2 (log2_fullMantissa hpos hlt))

/-- A number that fits into a mantissa but for zeros after it, as it is packed. -/
theorem toModel_ofWhole {i : Nat} (hi : a * 2 ^ i < 2 ^ 64) :
    (ofWhole (a * 2 ^ i)).toModel = Float.Model.pack (.finite .positive (fullMantissa a)
      (i - (52 - a.log2 : Nat)) (fullMantissa_pos hpos hlt)) := by
  have hn : (UInt64.ofNat (a * 2 ^ i)).toNat = a * 2 ^ i := by
    rw [UInt64.toNat_ofNat', Nat.mod_eq_of_lt hi]
  have hgt : compare ((a * 2 ^ i : Nat) : Int) 0 = .gt :=
    Int.compare_eq_gt.2 (Int.natCast_pos.2 (Nat.mul_pos hpos (Nat.two_pow_pos i)))
  show Float.Model.pack (UnpackedFloat.ofUInt64 Format.binary64 (UInt64.ofNat (a * 2 ^ i))) = _
  rw [UnpackedFloat.ofUInt64, UnpackedFloat.ofNat, UnpackedFloat.ofInt, hn, UnpackedFloat.normalize,
    hgt]
  dsimp only
  rw [Int.toNat_natCast, round_exact (log2_fullMantissa hpos hlt) .positive rfl]

theorem unpack_ofWhole {i : Nat} (hi : a * 2 ^ i < 2 ^ 64) :
    (ofWhole (a * 2 ^ i)).toModel.unpack = .finite .positive (fullMantissa a)
      (i - (52 - a.log2 : Nat)) (fullMantissa_pos hpos hlt) := by
  have := (Nat.log2_lt hpos.ne').2 hlt
  have hi64 : i < 64 := by
    have hle : 2 ^ i ≤ a * 2 ^ i := Nat.le_mul_of_pos_left _ hpos
    exact (Nat.pow_lt_pow_iff_right (by decide)).1 (lt_of_le_of_lt hle hi)
  rw [toModel_ofWhole hpos hlt hi]
  exact unpack_pack (log2_fullMantissa hpos hlt) _ (by omega) (by omega) _

/-- With the sign of a numeral, a whole number has its own bits and the bit of the sign. -/
theorem toNat_toBits_signed (negative : Bool) :
    (if negative then -ofWhole a else ofWhole a).toBits.toNat
      = negative.toNat * 2 ^ 63 + (a.log2 + 1023) * 2 ^ 52 + fullMantissa a % 2 ^ 52 := by
  have hlog := (Nat.log2_lt hpos.ne').2 hlt
  have hwhole : a * 2 ^ 0 < 2 ^ 64 := by omega
  have hbits : ∀ s : Sign, (Float.Model.pack (.finite s (fullMantissa a)
      ((0 : Nat) - (52 - a.log2 : Nat)) (fullMantissa_pos hpos hlt))).toBits.toNat
        = s.toBitVec.toNat * 2 ^ 63 + (a.log2 + 1023) * 2 ^ 52 + fullMantissa a % 2 ^ 52 := by
    intro s
    have hfield : ((0 : Nat) - ((52 - a.log2 : Nat) : Int) + 1075).toNat = a.log2 + 1023 := by omega
    rw [← hfield]
    exact toNat_pack (log2_fullMantissa hpos hlt) s (by omega) (by omega)
      (fullMantissa_pos hpos hlt)
  have hmodel := toModel_ofWhole hpos hlt hwhole
  rw [Nat.pow_zero, Nat.mul_one] at hmodel
  cases negative with
  | false =>
    show (ofWhole a).toModel.toBits.toNat = _
    rw [hmodel, hbits]
    rfl
  | true =>
    have hunpack := unpack_ofWhole hpos hlt hwhole
    rw [Nat.pow_zero, Nat.mul_one] at hunpack
    show (Float.Model.pack (ofWhole a).toModel.unpack.neg).toBits.toNat = _
    rw [hunpack]
    exact hbits .negative

end Whole

/-- The mantissa of five times a number, against that of the number. -/
theorem fullMantissa_five_mul {n : Nat} (hpos : 0 < n) (hlt : 5 * n < 2 ^ 53) :
    ∃ i, (5 * n).log2 + i = n.log2 + 3 ∧
      fullMantissa (5 * n) * 2 ^ 53 = fullMantissa n * 2 ^ i * (5 * 2 ^ 50) := by
  have hne : 5 * n ≠ 0 := by omega
  have hle : (5 * n).log2 < n.log2 + 4 := by
    have hn : n < 2 ^ (n.log2 + 1) := Nat.lt_log2_self
    have hfour : 2 ^ (n.log2 + 4) = 8 * 2 ^ (n.log2 + 1) := by ring
    exact (Nat.log2_lt hne).2 (by omega)
  have hlog : (5 * n).log2 < 53 := (Nat.log2_lt hne).2 hlt
  have hlog' : n.log2 ≤ 52 := Nat.lt_succ_iff.1 ((Nat.log2_lt hpos.ne').2 (by omega))
  refine ⟨n.log2 + 3 - (5 * n).log2, by omega, ?_⟩
  have hpow : 2 ^ (52 - (5 * n).log2) * 2 ^ 53
      = 2 ^ (52 - n.log2) * 2 ^ (n.log2 + 3 - (5 * n).log2) * 2 ^ 50 := by
    rw [← Nat.pow_add, ← Nat.pow_add, ← Nat.pow_add]
    congr 1
    omega
  calc fullMantissa (5 * n) * 2 ^ 53
      = 5 * n * (2 ^ (52 - (5 * n).log2) * 2 ^ 53) := by rw [fullMantissa]; ring
    _ = fullMantissa n * 2 ^ (n.log2 + 3 - (5 * n).log2) * (5 * 2 ^ 50) := by
      rw [hpow, fullMantissa]
      ring

/-- **Ten times a number, divided by ten, is the number**, up to `2 ^ 54 / 10`. -/
theorem ofWhole_div_ten {n : Nat} (hpos : 0 < n) (hle : n ≤ 2 ^ 54 / 10) :
    ofWhole (10 * n) / Float.ofScientific 1 false 1 = ofWhole n := by
  have hlt : n < 2 ^ 53 := by omega
  have hlt' : 5 * n < 2 ^ 53 := by omega
  have hpos' : 0 < 5 * n := by omega
  have hten : (Float.ofScientific 1 false 1).toModel.unpack
      = .finite .positive (5 * 2 ^ 50) (-49) (by decide) := rfl
  have hdividend : (ofWhole (10 * n)).toModel.unpack = .finite .positive (fullMantissa (5 * n))
      ((1 : Nat) - (52 - (5 * n).log2 : Nat)) (fullMantissa_pos hpos' hlt') := by
    have h := unpack_ofWhole hpos' hlt' (i := 1) (by omega)
    rwa [show 5 * n * 2 ^ 1 = 10 * n by ring] at h
  have hwhole := toModel_ofWhole hpos hlt (i := 0) (by omega)
  rw [Nat.pow_zero, Nat.mul_one] at hwhole
  obtain ⟨i, hi, hquotient⟩ := fullMantissa_five_mul hpos hlt'
  have hlog := (Nat.log2_lt hpos'.ne').2 hlt'
  have hlog' := (Nat.log2_lt hpos.ne').2 hlt
  have hdiv : UnpackedFloat.div Format.binary64 (ofWhole (10 * n)).toModel.unpack
      (Float.ofScientific 1 false 1).toModel.unpack = .finite .positive (fullMantissa n)
        ((0 : Nat) - (52 - n.log2 : Nat)) (fullMantissa_pos hpos hlt) := by
    have hround := roundWithAccuracy_exact (log2_fullMantissa hpos hlt) (.positive / .positive) i
      (e := (1 : Nat) - (52 - (5 * n).log2 : Nat) - (-49) - 53) (by omega)
    rw [hdividend, hten, UnpackedFloat.div,
      divCore_exact (log2_fullMantissa hpos' hlt') (by decide) hquotient (by omega)]
    dsimp only
    rw [hround, UnpackedFloat.finite.injEq]
    exact ⟨rfl, rfl, by omega⟩
  have hmodel : (ofWhole (10 * n) / Float.ofScientific 1 false 1).toModel
      = (ofWhole n).toModel := by
    rw [hwhole, ← hdiv]
    rfl
  exact congrArg Float.ofModel hmodel

end Glossopoeia.Decimal
