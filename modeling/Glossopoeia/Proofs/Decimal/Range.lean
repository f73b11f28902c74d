import Glossopoeia.Proofs.Decimal.Double

/-!
# The range of shortest decimals

The shortest decimal of a finite double is found on a grid of at most seventeen digits, and what is
found on a grid rounds to the double.  So it has few digits, and it does not lie beyond the greatest
double (`shortest_inRange`).  The greatest double itself is left to evaluation: the next number of
seventeen digits after its shortest decimal would not round to it any more.
-/

set_option autoImplicit false

namespace Glossopoeia.Decimal

open Float.Model Float.Model.UnpackedFloat

/-! ## Powers -/

theorem twoTo_add (a b : Nat) : twoTo (a + b) = twoTo a * twoTo b := Nat.pow_add 2 a b

theorem tenTo_add (a b : Nat) : tenTo (a + b) = tenTo a * tenTo b := Nat.pow_add 10 a b

theorem twoTo_pos (n : Nat) : 0 < twoTo n := Nat.two_pow_pos n

theorem tenTo_pos (n : Nat) : 0 < tenTo n := Nat.pow_pos (by decide)

theorem twoTo_le {a b : Nat} (h : a ≤ b) : twoTo a ≤ twoTo b :=
  Nat.pow_le_pow_right (by decide) h

theorem tenTo_le {a b : Nat} (h : a ≤ b) : tenTo a ≤ tenTo b :=
  Nat.pow_le_pow_right (by decide) h

theorem lt_tenTo_digitCount (n : Nat) : n < tenTo (digitCount n) :=
  (Nat.length_toDigits_le_iff (by decide) Nat.length_toDigits_pos).1 le_rfl

/-! ## What is found on a grid -/

namespace Binary

variable {b : Binary} {n : Nat} {scale : Int}

/-- A quarter of the mantissa's last bit, on the grid of the multiples of `10 ^ scale`. -/
def gridUnit (b : Binary) (scale : Int) : Nat :=
  twoTo (b.exponent - 2).toNat * tenTo (-scale).toNat

/-- The distance of two neighbours on the grid. -/
def gridStep (b : Binary) (scale : Int) : Nat := tenTo scale.toNat * twoTo (2 - b.exponent).toNat

theorem gridUnit_pos (b : Binary) (scale : Int) : 0 < b.gridUnit scale :=
  Nat.mul_pos (twoTo_pos _) (tenTo_pos _)

theorem gridStep_pos (b : Binary) (scale : Int) : 0 < b.gridStep scale :=
  Nat.mul_pos (tenTo_pos _) (twoTo_pos _)

/-- Does the multiple round to the double?  The ends of the interval count if the mantissa is
even. -/
def roundsTo (b : Binary) (scale : Int) (n : Nat) : Bool :=
  if b.mantissa % 2 == 0 then
    (4 * b.mantissa - if b.narrowBelow then 1 else 2) * b.gridUnit scale ≤ n * b.gridStep scale
      && n * b.gridStep scale ≤ (4 * b.mantissa + 2) * b.gridUnit scale
  else
    (4 * b.mantissa - if b.narrowBelow then 1 else 2) * b.gridUnit scale < n * b.gridStep scale
      && n * b.gridStep scale < (4 * b.mantissa + 2) * b.gridUnit scale

theorem roundsTo_bounds (h : b.roundsTo scale n = true) :
    (4 * b.mantissa - 2) * b.gridUnit scale ≤ n * b.gridStep scale ∧
      n * b.gridStep scale ≤ (4 * b.mantissa + 2) * b.gridUnit scale := by
  have hlow : (4 * b.mantissa - 2) * b.gridUnit scale
      ≤ (4 * b.mantissa - if b.narrowBelow then 1 else 2) * b.gridUnit scale :=
    Nat.mul_le_mul_right _ (by split <;> omega)
  rw [roundsTo] at h
  split at h <;> rw [Bool.and_eq_true, decide_eq_true_eq, decide_eq_true_eq] at h <;> omega

/-- **What is found on a grid** rounds to the double and is one of the neighbours of its value. -/
theorem roundsTo_of_onGrid? (h : b.onGrid? scale = some n) : b.roundsTo scale n = true ∧
    n ≤ 4 * b.mantissa * b.gridUnit scale / b.gridStep scale + 1 := by
  have hchoice : ∀ {p : Nat → Bool} {nearer : Bool} {k : Nat}, (if p k then
      if p (k + 1) then if nearer then some k else some (k + 1) else some k
      else if p (k + 1) then some (k + 1) else none) = some n → p n = true ∧ n ≤ k + 1 := by
    grind
  exact hchoice (p := b.roundsTo scale) h

/-- The value is below the power of ten that its magnitude says. -/
theorem exists_magnitude (b : Binary) : ∃ count : Nat, 0 < count ∧
    b.magnitude = (count : Int) - places ∧ b.mantissa * twoTo b.exponent.toNat * tenTo places
      < tenTo count * twoTo (-b.exponent).toNat := by
  refine ⟨_, Nat.length_toDigits_pos, rfl, ?_⟩
  rw [← Nat.div_lt_iff_lt_mul (twoTo_pos _)]
  exact lt_tenTo_digitCount _

/-- So on the grid that is `left` places further down it is below that multiple. -/
theorem value_div_lt {left : Nat} (hscale : scale = b.magnitude - left) :
    4 * b.mantissa * b.gridUnit scale / b.gridStep scale < tenTo left := by
  obtain ⟨count, -, hcount, hlt⟩ := b.exists_magnitude
  rw [Nat.div_lt_iff_lt_mul (b.gridStep_pos scale), gridUnit, gridStep]
  generalize places = p at hcount hlt
  have htwo : 4 * twoTo (b.exponent - 2).toNat * twoTo (-b.exponent).toNat
      = twoTo b.exponent.toNat * twoTo (2 - b.exponent).toNat := by
    show twoTo 2 * _ * _ = _
    rw [← twoTo_add, ← twoTo_add, ← twoTo_add]
    congr 1
    omega
  have hten : tenTo left * tenTo scale.toNat * tenTo p = tenTo count * tenTo (-scale).toNat := by
    rw [← tenTo_add, ← tenTo_add, ← tenTo_add]
    congr 1
    omega
  have hpos : 0 < twoTo (2 - b.exponent).toNat * tenTo (-scale).toNat :=
    Nat.mul_pos (twoTo_pos _) (tenTo_pos _)
  refine Nat.lt_of_mul_lt_mul_right (a := twoTo (-b.exponent).toNat * tenTo p) ?_
  calc 4 * b.mantissa * (twoTo (b.exponent - 2).toNat * tenTo (-scale).toNat)
        * (twoTo (-b.exponent).toNat * tenTo p)
      = b.mantissa * (4 * twoTo (b.exponent - 2).toNat * twoTo (-b.exponent).toNat) * tenTo p
        * tenTo (-scale).toNat := by ring
    _ = b.mantissa * twoTo b.exponent.toNat * tenTo p
        * (twoTo (2 - b.exponent).toNat * tenTo (-scale).toNat) := by rw [htwo]; ring
    _ < tenTo count * twoTo (-b.exponent).toNat
        * (twoTo (2 - b.exponent).toNat * tenTo (-scale).toNat) :=
      Nat.mul_lt_mul_of_pos_right hlt hpos
    _ = tenTo count * tenTo (-scale).toNat
        * (twoTo (2 - b.exponent).toNat * twoTo (-b.exponent).toNat) := by ring
    _ = tenTo left * (tenTo scale.toNat * twoTo (2 - b.exponent).toNat)
        * (twoTo (-b.exponent).toNat * tenTo p) := by rw [← hten]; ring

end Binary

/-! ## Decimals in range -/

/-- No real number above this one rounds to a double below the greatest one. -/
def roundingLimit : Nat := (2 ^ 54 - 3) * 2 ^ 970

/-- The digits of a shortest decimal, read as one number, are no more than this. -/
def digitLimit : Nat := 10 ^ 17

/-- The shortest decimal of the greatest double. -/
def greatest : Scientific := ⟨17976931348623157, 292⟩

/-- The decimal has few digits and does not lie beyond the greatest double. -/
structure Scientific.InRange (d : Scientific) : Prop where
  /-- Zero has no exponent. -/
  zero : d.digits = 0 → d.exponent = 0
  /-- There are at most seventeen digits, but for a power of ten. -/
  digits_le : d.digits ≤ digitLimit
  /-- The last digit is not too far behind the point. -/
  exponent_ge : -416 ≤ d.exponent
  /-- The number is that of a double below the greatest one, or of that one. -/
  value_le : d.digits * tenTo d.exponent.toNat ≤ roundingLimit ∨ d = greatest

theorem Scientific.InRange.exponent_le {d : Scientific} (h : d.InRange) : d.exponent ≤ 308 := by
  by_contra! hgreat
  rcases h.value_le with hle | rfl
  · have hpos : 0 < d.digits := Nat.pos_of_ne_zero fun h0 ↦ by
      rw [h.zero h0] at hgreat
      exact absurd hgreat (by decide)
    have hlimit : tenTo 309 ≤ roundingLimit := calc
      tenTo 309 ≤ tenTo d.exponent.toNat := tenTo_le (by omega)
      _ ≤ d.digits * tenTo d.exponent.toNat := Nat.le_mul_of_pos_left _ hpos
      _ ≤ roundingLimit := hle
    exact absurd hlimit (by decide +kernel)
  · exact absurd hgreat (by decide)

theorem Scientific.InRange.dropZeros {d : Scientific} (h : d.InRange) (fuel : Nat) :
    (d.dropZeros fuel).InRange := by
  induction fuel generalizing d with
  | zero => exact h
  | succ fuel ih =>
    rw [Scientific.dropZeros]
    split
    · next hzero =>
      rw [Bool.and_eq_true, decide_eq_true_eq, decide_eq_true_eq] at hzero
      have hten : d.digits / 10 * 10 = d.digits :=
        Nat.div_mul_cancel (Nat.dvd_of_mod_eq_zero hzero.1)
      refine ih ⟨fun h0 ↦ ?_, ?_, ?_, ?_⟩
      · dsimp only at h0
        omega
      · exact (Nat.div_le_self _ _).trans h.digits_le
      · exact h.exponent_ge.trans (by dsimp only; omega)
      · rcases h.value_le with hle | rfl
        · refine .inl ((Nat.le_trans ?_ hle))
          dsimp only
          rcases lt_or_ge d.exponent 0 with hneg | hnonneg
          · rw [show (d.exponent + 1).toNat = d.exponent.toNat by omega]
            exact Nat.mul_le_mul_right _ (Nat.div_le_self _ _)
          · rw [show (d.exponent + 1).toNat = 1 + d.exponent.toNat by omega, tenTo_add,
              ← Nat.mul_assoc]
            exact Nat.le_of_eq (congrArg (· * _) hten)
        · exact absurd hzero.1 (by decide)
    · exact h

/-- The magnitude is that of a double between zero and the greatest one. -/
structure Binary.InRange (b : Binary) : Prop where
  /-- The double is not zero. -/
  pos : 0 < b.mantissa
  /-- It is below the greatest one. -/
  lt : b.mantissa < 2 ^ 53 ∧ b.exponent < 971 ∨ b.mantissa < 2 ^ 53 - 1 ∧ b.exponent ≤ 971

namespace Binary.InRange

variable {b : Binary} (h : b.InRange)

include h

/-- The interval of numbers that round to the double ends below the limit. -/
theorem interval_le : (4 * b.mantissa + 2) * twoTo (b.exponent - 2).toNat ≤ roundingLimit := by
  rcases h.lt with ⟨hm, he⟩ | ⟨hm, he⟩
  · calc (4 * b.mantissa + 2) * twoTo (b.exponent - 2).toNat
        ≤ (2 ^ 55 - 2) * twoTo 968 := Nat.mul_le_mul (by omega) (twoTo_le (by omega))
      _ ≤ roundingLimit := by decide +kernel
  · calc (4 * b.mantissa + 2) * twoTo (b.exponent - 2).toNat
        ≤ (2 ^ 55 - 6) * twoTo 969 := Nat.mul_le_mul (by omega) (twoTo_le (by omega))
      _ ≤ roundingLimit := by decide +kernel

/-- **What is found on a grid of at most seventeen digits is in range.** -/
theorem onGrid? {n left : Nat} (hleft : left ≤ 17)
    (hn : b.onGrid? (b.magnitude - left) = some n) : Scientific.InRange ⟨n, b.magnitude - left⟩ := by
  obtain ⟨hrounds, hle⟩ := roundsTo_of_onGrid? hn
  obtain ⟨hlow, hhigh⟩ := roundsTo_bounds hrounds
  have hpos : 0 < n * b.gridStep (b.magnitude - left) := by
    have hm := h.pos
    exact lt_of_lt_of_le (Nat.mul_pos (by omega) (b.gridUnit_pos _)) hlow
  have hdigits : n ≤ digitLimit := calc
    n ≤ _ := hle
    _ ≤ tenTo left := value_div_lt rfl
    _ ≤ digitLimit := tenTo_le hleft
  refine ⟨fun h0 ↦ ?_, hdigits, ?_, .inl ?_⟩
  · dsimp only at h0
    rw [h0, Nat.zero_mul] at hpos
    exact absurd hpos (by decide)
  · obtain ⟨count, hcount, hmagnitude, -⟩ := b.exists_magnitude
    have hplaces : places = 400 := rfl
    dsimp only
    omega
  · generalize b.magnitude - left = scale at hhigh
    dsimp only
    rcases lt_or_ge scale 0 with hneg | hnonneg
    · rw [show scale.toNat = 0 by omega]
      exact (Nat.le_of_eq (Nat.mul_one n)).trans (hdigits.trans (by decide +kernel))
    · have hunit : b.gridUnit scale = twoTo (b.exponent - 2).toNat := by
        rw [gridUnit, show (-scale).toNat = 0 by omega]
        exact Nat.mul_one _
      calc n * tenTo scale.toNat ≤ n * b.gridStep scale :=
          Nat.mul_le_mul_left _ (Nat.le_mul_of_pos_right _ (twoTo_pos _))
        _ ≤ (4 * b.mantissa + 2) * twoTo (b.exponent - 2).toNat := hunit ▸ hhigh
        _ ≤ roundingLimit := h.interval_le

theorem search (left : Nat) (hleft : left ≤ 17) : (b.search left).InRange := by
  induction left with
  | zero =>
    rw [Binary.search]
    exact ⟨fun _ ↦ rfl, Nat.zero_le _, by decide, .inl (by decide +kernel)⟩
  | succ left ih =>
    rw [Binary.search]
    cases hn : b.onGrid? (b.magnitude - (17 - left : Nat)) with
    | none => exact ih (by omega)
    | some n => exact h.onGrid? (by omega) hn

end Binary.InRange

theorem search_greatest : Binary.search ⟨2 ^ 53 - 1, 971, false⟩ 17 = greatest := by
  decide +kernel

/-! ## Finite doubles -/

/-- The exponent of a finite double is not the last one. -/
theorem biased_lt_of_isFinite {x : Float} (h : x.isFinite = true) :
    x.toBits.toNat / twoTo 52 % twoTo 11 < 2047 := by
  refine lt_of_le_of_ne (Nat.le_pred_of_lt (Nat.mod_lt _ (twoTo_pos 11))) fun hlast ↦ ?_
  have hfield : (unpackExponent x.toModel.toBits.toBitVec : BitVec Format.binary64.exponentBits)
      = -BitVec.ofNat Format.binary64.exponentBits 1 := by
    refine BitVec.eq_of_toNat_eq ?_
    rw [unpackExponent, BitVec.toNat_cast, BitVec.extractLsb_toNat, Nat.shiftRight_eq_div_pow]
    exact hlast
  change x.toModel.unpack.isFinite = true at h
  rw [Float.Model.unpack, UnpackedFloat.unpack.eq_1, if_pos hfield] at h
  split at h <;> cases h

/-- **The shortest decimal of a finite double is in range.** -/
theorem shortest_inRange {x : Float} (h : x.isFinite = true)
    (hne : x.toBits.toNat % twoTo 63 ≠ 0) : (shortest x.toBits).InRange := by
  have hbiased := biased_lt_of_isFinite h
  generalize x.toBits = bits at hbiased hne
  have h63 : twoTo 63 = 2 ^ 63 := rfl
  have h52 : twoTo 52 = 2 ^ 52 := rfl
  have h11 : twoTo 11 = 2 ^ 11 := rfl
  rw [h52, h11] at hbiased
  rw [h63] at hne
  rw [shortest]
  refine Scientific.InRange.dropZeros ?_ 17
  rw [Binary.ofBits, h52, h11]
  have hfraction : bits.toNat % 2 ^ 52 < 2 ^ 52 := Nat.mod_lt _ (Nat.two_pow_pos 52)
  have hzero : bits.toNat / 2 ^ 52 % 2 ^ 11 = 0 → 0 < bits.toNat % 2 ^ 52 := by omega
  generalize bits.toNat / 2 ^ 52 % 2 ^ 11 = biased at hbiased hzero
  generalize bits.toNat % 2 ^ 52 = fraction at hfraction hzero
  split
  · next h0 =>
    refine Binary.InRange.search ⟨hzero h0, .inl ⟨?_, by dsimp only; omega⟩⟩ _ le_rfl
    dsimp only
    omega
  · by_cases hlast : biased = 2046 ∧ fraction = 2 ^ 52 - 1
    · rw [hlast.1, hlast.2]
      exact search_greatest ▸ ⟨by decide, by decide, by decide, .inr rfl⟩
    · refine Binary.InRange.search ⟨Nat.add_pos_left (twoTo_pos 52) _, ?_⟩ _ le_rfl
      rw [Int.ofNat_eq_natCast]
      dsimp only
      omega

end Glossopoeia.Decimal
