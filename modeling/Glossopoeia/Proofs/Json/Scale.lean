import Glossopoeia.Json.Number
import Glossopoeia.Proofs.Decimal.Range
import Glossopoeia.Proofs.Decimal.Rounding

/-!
# Scaling by powers of ten

The digits of a decimal are read as a whole number and multiplied by a power of ten, or divided by
one.  The two factors and the product are rounded each, so the product might lie beyond the greatest
double even if the decimal does not.  That does not happen to shortest decimals
(`isInf_scaled_eq_false`): they have at most seventeen digits, so up to `10 ^ 291` there is room
enough (`powerFits_of_le`), and above that there are few powers to look at.  So every shortest
decimal can be scaled (`exists_scale`).
-/

set_option autoImplicit false

namespace Glossopoeia.Json

open Decimal Float.Model Float.Model.UnpackedFloat

/-- Is the double a normal one, small enough for all numbers of digits that `10 ^ e` takes no
further than the limit? -/
def powerFits (e : Nat) : UnpackedFloat → Bool
  | .finite _ m x _ => decide (m.log2 = 52) && decide (-52 ≤ x) &&
    decide (twiceAtMost (min (roundingLimit / tenTo e) digitLimit) * (m * 2 ^ (x + 52).toNat)
      < (2 ^ 54 - 1) * 2 ^ 1023)
  | _ => false

/-- The first powers of ten are doubles themselves. -/
theorem powerFits_of_small : ∀ e < 23, powerFits e (powerOfTen e).toModel.unpack = true := by
  decide +kernel

/-- The last powers of ten that are doubles. -/
theorem powerFits_of_great :
    ∀ e < 17, powerFits (292 + e) (powerOfTen (292 + e)).toModel.unpack = true := by
  decide +kernel

/-- The powers of ten between them are rounded. -/
theorem toModel_powerOfTen {e : Nat} (hlow : 23 ≤ e) (hhigh : e ≤ 2048) :
    (powerOfTen e).toModel = Float.Model.pack (roundWithAccuracy Format.binary64 .positive
      (2 ^ 53 * tenTo e) (-53) .exact) := by
  have hscientific : (powerOfTen e).toModel = Float.Model.ofScientific 1 (e : Int) := by
    rw [powerOfTen, Float.ofScientific, dif_neg (by omega)]
    rfl
  -- Neither the bound for infinity nor the one for zero is reached.
  have hbelow : ¬(e : Int) > 2 ^ Format.binary64.exponentBits :=
    show ¬(e : Int) > 2048 by omega
  have habove : ¬(e : Int) < -(2 ^ Format.binary64.exponentBits + (Nat.log2 1 : Nat)) :=
    show ¬(e : Int) < -(2048 + (0 : Nat)) by omega
  rw [hscientific, Float.Model.ofScientific, UnpackedFloat.ofScientific, dif_neg (by decide),
    if_neg hbelow, if_neg habove, if_pos (by omega)]
  rfl

/-- Of these it is enough to know that they are rounded up by less than half of themselves. -/
theorem powerFits_of_le {e : Nat} (hlow : 23 ≤ e) (hhigh : e ≤ 291) :
    powerFits e (powerOfTen e).toModel.unpack = true := by
  have hpow : tenTo e ≤ tenTo 291 := tenTo_le hhigh
  have hpos := tenTo_pos e
  have hmodel := toModel_powerOfTen hlow (by omega)
  have hmost : (2 ^ 53 * tenTo 291).log2 < 1020 := by decide +kernel
  have hroom : twiceAtMost digitLimit * (3 * (2 ^ 53 * tenTo 291))
      < 4 * ((2 ^ 54 - 1) * 2 ^ 1023) := by decide +kernel
  generalize tenTo e = p at hpow hpos hmodel
  generalize tenTo 291 = q at hpow hmost hroom
  have hle : 2 ^ 53 * p ≤ 2 ^ 53 * q := Nat.mul_le_mul_left _ hpow
  have hne : 2 ^ 53 * p ≠ 0 := by omega
  obtain ⟨k, hk⟩ : ∃ k, (2 ^ 53 * p).log2 = 53 + k := by
    have hge : 53 ≤ (2 ^ 53 * p).log2 := (Nat.le_log2 hne).2 (by omega)
    exact ⟨(2 ^ 53 * p).log2 - 53, by omega⟩
  have hlog : (2 ^ 53 * p).log2 < 1020 := lt_of_le_of_lt (log2_mono hle) hmost
  have hself := Nat.log2_self_le hne
  rw [hk, Nat.add_assoc 52 1 k, Nat.pow_add] at hself
  obtain ⟨m, i, hm, hround, hlog', hvalue, hi⟩ :=
    roundWithAccuracy_near .positive (hk.trans (Nat.add_assoc 52 1 k)) (e := -53) (by omega)
  obtain ⟨j, rfl⟩ : ∃ j, i = j + 1 := ⟨i - 1, by omega⟩
  have hunpack : (powerOfTen e).toModel.unpack
      = .finite .positive m (-53 + ((j + 1 : Nat) : Int)) hm := by
    rw [hmodel, hround]
    exact unpack_modelPack hlog' .positive (by omega) (by omega) hm
  have hshift : (-53 + ((j + 1 : Nat) : Int) + 52).toNat = j := by omega
  have hdigits : twiceAtMost (min (roundingLimit / tenTo e) digitLimit) ≤ twiceAtMost digitLimit :=
    twiceAtMost_mono (Nat.min_le_right _ _)
  have hpower : 4 * (m * 2 ^ j) ≤ 3 * (2 ^ 53 * q) := by
    rw [Nat.pow_succ, ← Nat.mul_assoc m] at hvalue
    omega
  rw [hunpack, powerFits, hshift, decide_eq_true hlog', decide_eq_true (by omega), Bool.and_self,
    Bool.true_and, decide_eq_true_eq]
  refine Nat.lt_of_mul_lt_mul_left (a := 4) (lt_of_le_of_lt ?_ hroom)
  rw [Nat.mul_left_comm]
  exact Nat.mul_le_mul hdigits hpower

theorem powerFits_powerOfTen {e : Nat} (he : e ≤ 308) :
    powerFits e (powerOfTen e).toModel.unpack = true := by
  rcases Nat.lt_or_ge e 23 with hsmall | hlow
  · exact powerFits_of_small e hsmall
  · rcases Nat.lt_or_ge 291 e with hgreat | hhigh
    · obtain ⟨i, rfl⟩ : ∃ i, e = 292 + i := ⟨e - 292, by omega⟩
      exact powerFits_of_great i (by omega)
    · exact powerFits_of_le hlow hhigh

/-- **The digits of a shortest decimal can be scaled** by the power of ten, if the decimal is not
above the limit: the product is a finite double. -/
theorem isInf_scaled_eq_false {n e : Nat} (hpos : 0 < n) (hdigits : n ≤ digitLimit) (he : e ≤ 308)
    (hlimit : n * tenTo e ≤ roundingLimit) : (ofWhole n * powerOfTen e).isInf = false := by
  have hn : n ≤ min (roundingLimit / tenTo e) digitLimit :=
    Nat.le_min.2 ⟨(Nat.le_div_iff_mul_le (Nat.pow_pos (by decide))).2 hlimit, hdigits⟩
  have hlt : n < 2 ^ 64 := lt_of_le_of_lt hdigits (by decide)
  obtain ⟨m, x, hm, hunpack, hlog, hx, hvalue⟩ := unpack_ofWhole_near hpos hlt
  have hfits := powerFits_powerOfTen he
  cases hpower : (powerOfTen e).toModel.unpack with
  | finite s m' x' hm' =>
    rw [hpower, powerFits, Bool.and_eq_true, Bool.and_eq_true, decide_eq_true_eq, decide_eq_true_eq,
      decide_eq_true_eq] at hfits
    obtain ⟨⟨hlog', hx'⟩, hroom⟩ := hfits
    refine isInf_mul_eq_false hunpack hpower hlog hlog' hx hx' ?_
    have hmono := twiceAtMost_mono hn
    refine Nat.lt_of_mul_lt_mul_left (a := 2) ?_
    calc 2 * (m * 2 ^ (x + 52).toNat * (m' * 2 ^ (x' + 52).toNat))
        = 2 * (m * 2 ^ (x + 52).toNat) * (m' * 2 ^ (x' + 52).toNat) := by ring
      _ ≤ twiceAtMost n * 2 ^ 52 * (m' * 2 ^ (x' + 52).toNat) := Nat.mul_le_mul_right _ hvalue
      _ ≤ twiceAtMost (min (roundingLimit / tenTo e) digitLimit) * 2 ^ 52
            * (m' * 2 ^ (x' + 52).toNat) :=
          Nat.mul_le_mul_right _ (Nat.mul_le_mul_right _ hmono)
      _ = 2 ^ 52 * (twiceAtMost (min (roundingLimit / tenTo e) digitLimit)
            * (m' * 2 ^ (x' + 52).toNat)) := by ring
      _ < 2 ^ 52 * ((2 ^ 54 - 1) * 2 ^ 1023) :=
          (Nat.mul_lt_mul_left (Nat.two_pow_pos 52)).2 hroom
      _ = 2 * ((2 ^ 54 - 1) * 2 ^ 1074) := by decide +kernel
  | notANumber | infinity | zero =>
    rw [hpower] at hfits
    cases hfits

/-- A division is always possible. -/
theorem exists_scale_of_neg {e : Int} (he : e < 0) (fuel : Nat) (x : Float) :
    ∃ y, scale x e fuel = some y := by
  induction fuel generalizing x e with
  | zero => exact ⟨x, rfl⟩
  | succ fuel ih =>
    rw [scale]
    split
    · rw [if_neg (by omega)]
      exact ⟨_, rfl⟩
    · next hgreat =>
      split
      · exact ⟨_, rfl⟩
      · rw [if_neg (by omega)]
        refine ih ?_ _
        rw [powerLimit] at hgreat ⊢
        omega

/-- **A decimal in range can be scaled.** -/
theorem exists_scale {d : Scientific} (h : d.InRange) :
    ∃ y, scale (ofWhole d.digits) d.exponent scaleSteps = some y := by
  rcases lt_or_ge d.exponent 0 with hneg | hnonneg
  · exact exists_scale_of_neg hneg _ _
  · obtain ⟨e, he⟩ := Int.eq_ofNat_of_zero_le hnonneg
    have hreach : e ≤ powerLimit := by
      have hle := h.exponent_le
      rw [powerLimit]
      omega
    have hfinite : (ofWhole d.digits * powerOfTen e).isInf = false := by
      rcases h.value_le with hle | rfl
      · rw [he, Int.toNat_natCast] at hle
        rcases Nat.eq_zero_or_pos d.digits with hzero | hpos
        · have hnone : e = 0 := Int.natCast_eq_zero.1 (he ▸ h.zero hzero)
          rw [hzero, hnone]
          decide
        · exact isInf_scaled_eq_false hpos h.digits_le hreach hle
      · obtain rfl : e = 292 := Int.natCast_inj.1 he.symm
        decide +kernel
    refine ⟨ofWhole d.digits * powerOfTen e, ?_⟩
    rw [scaleSteps, scale, he, Int.natAbs_natCast, if_pos hreach, if_pos (Int.natCast_nonneg e)]
    dsimp only
    rw [hfinite, if_neg Bool.false_ne_true]

end Glossopoeia.Json
