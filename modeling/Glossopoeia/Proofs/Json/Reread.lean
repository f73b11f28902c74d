import Glossopoeia.Proofs.Json.Numeral
import Glossopoeia.Proofs.Json.Scale

/-!
# Doubles that are written and read again

A shortest decimal is written in one of four forms.  Each is read as a numeral that spells the
digits and the exponent of the decimal, or, if it is a whole number, ten times that number with a
point before the zero at its end (`exists_spelledAs_render`).  Both can be scaled, so every finite
double is read as some double (`readsAs_rereadFloat`).
-/

set_option autoImplicit false

namespace Glossopoeia.Json

open Decimal Text

/-! ## The forms of a decimal -/

theorem isAsciiDigit_of_mem_replicate {n : Nat} {c : Char} (hc : c ∈ List.replicate n '0') :
    isAsciiDigit c = true := by
  rw [List.eq_of_mem_replicate hc]
  rfl

/-- Zeros in front do not count. -/
theorem ofDigitChars_replicate_append (n : Nat) (ds : List Char) :
    Nat.ofDigitChars 10 (List.replicate n '0' ++ ds) 0 = Nat.ofDigitChars 10 ds 0 := by
  induction n with
  | zero => rfl
  | succ n ih => exact ih

/-- Digits behind a point, and what follows them. -/
theorem readFraction_digits {ds rest : List Char} (hne : ds ≠ [])
    (hall : ∀ c ∈ ds, isAsciiDigit c = true) (hrest : ∀ c ∈ rest.head?, isAsciiDigit c = false) :
    readFraction ('.' :: (ds ++ rest)) = some (some ds, rest) := by
  rw [readFraction_point, readDigits_append (readDigits_of_forall hne hall) hrest]
  rfl

/-- The exponent as it is written. -/
def powerPart (power : Int) : List Char :=
  'e' :: ((if power < 0 then ['-'] else []) ++ digitsOf power.natAbs)

theorem readExponent_powerPart (power : Int) :
    readExponent (powerPart power)
      = some (some (decide (power < 0), digitsOf power.natAbs), []) := by
  have hwhole := isWholePart_digitsOf power.natAbs
  have hdigits := readDigits_of_forall hwhole.ne_nil hwhole.digits
  have hsign : readSign ((if power < 0 then ['-'] else []) ++ digitsOf power.natAbs)
      = (decide (power < 0), digitsOf power.natAbs) := by
    by_cases hneg : power < 0
    · rw [if_pos hneg, decide_eq_true hneg]
      rfl
    · rw [if_neg hneg, decide_eq_false hneg, List.nil_append]
      obtain ⟨d, ds, hcons⟩ := List.exists_cons_of_ne_nil hwhole.ne_nil
      have hd : isAsciiDigit d = true := hwhole.digits d (hcons ▸ List.mem_cons_self)
      rw [hcons, readSign]
      · rintro rest heq
        obtain ⟨rfl, -⟩ := List.cons.inj heq
        cases hd
      · rintro rest heq
        obtain ⟨rfl, -⟩ := List.cons.inj heq
        cases hd
  rw [powerPart, readExponent_cons, if_pos (by decide : ('e' == 'e' || 'e' == 'E') = true), hsign,
    hdigits]
  rfl

/-- With or without a sign, the text is read as a numeral that spells the digits `significand`, the
last of which counts `10 ^ power`. -/
def SpelledAs (cs : List Char) (significand : Nat) (power : Int) : Prop :=
  ∀ negative, ∃ n : Numeral, readNumeral (minus negative ++ cs) = some (n, []) ∧
    n.negative = negative ∧ n.Spells significand power

theorem spelledAs_whole {n : Nat} (hle : 10 * n ≤ wholeLimit) :
    SpelledAs (digitsOf n ++ ['.', '0']) (10 * n) (-1) :=
  fun negative ↦ ⟨_, readNumeral_whole negative n, rfl, spells_whole negative hle⟩

/-- Digits of one number on both sides of the point. -/
theorem spelledAs_fraction {whole fraction : List Char} (hwhole : IsWholePart whole)
    (hne : fraction ≠ []) (hfraction : ∀ c ∈ fraction, isAsciiDigit c = true) {n : Nat}
    (hn : Nat.ofDigitChars 10 (whole ++ fraction) 0 = n) (hle : n ≤ wholeLimit)
    (hlength : fraction.length ≤ exponentLimit) :
    SpelledAs (whole ++ '.' :: fraction) n (-(fraction.length : Int)) := by
  intro negative
  have hread : readFraction ('.' :: (fraction ++ [])) = some (some fraction, []) :=
    readFraction_digits hne hfraction (by simp)
  rw [List.append_nil] at hread
  refine ⟨_, readNumeral_parts negative hwhole hread rfl (by rintro c ⟨⟩; rfl), rfl, ?_⟩
  exact ⟨.inl (Option.some_ne_none _), hn, hle, Int.zero_sub _, (fun _ he ↦ by cases he),
    (Int.natAbs_neg _).trans_le hlength⟩

/-- One digit before the point, if there is one, and an exponent. -/
theorem spelledAs_power {n : Nat} {c : Char} {rest : List Char} (hn : digitsOf n = c :: rest)
    (hle : n ≤ wholeLimit) (power : Int) (hpower : power.natAbs ≤ exponentLimit)
    (hlength : (power - rest.length).natAbs ≤ exponentLimit) :
    SpelledAs ((if rest = [] then [c] else c :: '.' :: rest) ++ powerPart power) n
      (power - rest.length) := by
  intro negative
  have hall : ∀ d ∈ c :: rest, isAsciiDigit d = true := hn ▸ (isWholePart_digitsOf n).digits
  obtain ⟨hc, hrest⟩ := List.forall_mem_cons.1 hall
  have hwhole : IsWholePart [c] :=
    ⟨List.cons_ne_nil _ _, List.forall_mem_singleton.2 hc, fun _ ↦ rfl⟩
  have hdigits : Nat.ofDigitChars 10 (c :: rest) 0 = n := hn ▸ ofDigitChars_digitsOf n
  have hexponent := readExponent_powerPart power
  have hstop : ∀ d ∈ (powerPart power).head?, isAsciiDigit d = false := by
    rintro d ⟨⟩
    rfl
  have hsize : ∀ e ∈ some (decide (power < 0), digitsOf power.natAbs),
      Nat.ofDigitChars 10 e.2 0 ≤ exponentLimit := by
    rintro e ⟨⟩
    rwa [ofDigitChars_digitsOf]
  have hvalue : ∀ f : Option (List Char), Numeral.power ⟨negative, [c], f,
      some (decide (power < 0), digitsOf power.natAbs)⟩ = power - (f.getD []).length := by
    intro f
    by_cases hneg : power < 0
    · rw [Numeral.power, decide_eq_true hneg]
      dsimp only
      rw [ofDigitChars_digitsOf]
      omega
    · rw [Numeral.power, decide_eq_false hneg]
      dsimp only
      rw [ofDigitChars_digitsOf]
      omega
  by_cases hnil : rest = []
  · have hread : readFraction (powerPart power) = some (none, powerPart power) :=
      readFraction_none (by rintro d ⟨⟩; decide)
    subst hnil
    rw [if_pos rfl]
    refine ⟨_, readNumeral_parts negative hwhole hread hexponent hstop, rfl, ?_⟩
    exact ⟨.inr (Option.some_ne_none _), hdigits, hle, hvalue none, hsize, hlength⟩
  · rw [if_neg hnil, ← List.singleton_append, List.append_assoc]
    refine ⟨_, readNumeral_parts negative hwhole (readFraction_digits hnil hrest hstop) hexponent
      (by rintro d ⟨⟩; rfl), rfl, ?_⟩
    exact ⟨.inl (Option.some_ne_none _), hdigits, hle, hvalue (some rest), hsize, hlength⟩

/-! ## Shortest decimals -/

section Render

variable {d : Scientific} (h : d.InRange)

include h

theorem digits_le_wholeLimit : d.digits ≤ wholeLimit := h.digits_le.trans (by decide)

theorem length_digitsOf_le : (digitsOf d.digits).length ≤ 18 :=
  (Nat.length_toDigits_le_iff (by decide) (by decide)).2 (lt_of_le_of_lt h.digits_le (by decide))

/-- The decimal is a whole number of up to sixteen digits. -/
theorem exists_spelledAs_integer (hexponent : 0 ≤ d.exponent)
    (hpoint : d.exponent + (digitsOf d.digits).length ≤ 16) : ∃ n : Nat, SpelledAs
      (digitsOf d.digits ++ List.replicate d.exponent.toNat '0' ++ ['.', '0']) (10 * n) (-1) := by
  have happend : digitsOf d.digits ++ List.replicate d.exponent.toNat '0'
      = digitsOf (d.digits * 10 ^ d.exponent.toNat) := by
    rcases Nat.eq_zero_or_pos d.digits with h0 | hpos
    · rw [h0, h.zero h0]
      rfl
    · exact (digitsOf_mul_tenTo hpos _).symm
  have hlt : d.digits * 10 ^ d.exponent.toNat < 10 ^ 16 := by
    refine (Nat.length_toDigits_le_iff (by decide) (by decide)).1 ?_
    show (digitsOf _).length ≤ 16
    rw [← happend, List.length_append, List.length_replicate]
    omega
  have hlimit : wholeLimit = 2 ^ 64 - 1 := rfl
  rw [happend]
  exact ⟨_, spelledAs_whole (by omega)⟩

/-- The point stands among the digits. -/
theorem spelledAs_inside {count : Nat} (hpoint : d.exponent + (digitsOf d.digits).length = count)
    (hcount : 0 < count) (hexponent : d.exponent < 0) :
    SpelledAs ((digitsOf d.digits).take count ++ '.' :: (digitsOf d.digits).drop count) d.digits
      d.exponent := by
  have hlow := h.exponent_ge
  have hlimit : exponentLimit = 2147483647 := rfl
  have hpos : 0 < d.digits := Nat.pos_of_ne_zero fun h0 ↦ by
    have hnone := h.zero h0
    omega
  have hall := isWholePart_digitsOf d.digits
  have hlength : ((digitsOf d.digits).drop count).length = (-d.exponent).toNat := by
    rw [List.length_drop]
    omega
  have hwhole : IsWholePart ((digitsOf d.digits).take count) := by
    refine ⟨fun hnil ↦ ?_, fun c hc ↦ hall.digits c (List.mem_of_mem_take hc), fun h0 ↦ ?_⟩
    · rw [List.take_eq_nil_iff] at hnil
      exact hnil.elim hcount.ne' hall.ne_nil
    · rw [List.head?_take, if_neg hcount.ne'] at h0
      exact absurd h0 (head?_digitsOf hpos)
  have hne : (digitsOf d.digits).drop count ≠ [] := by
    rw [← List.length_pos_iff, hlength]
    omega
  have hspelled := spelledAs_fraction hwhole hne
    (fun c hc ↦ hall.digits c (List.mem_of_mem_drop hc))
    (by rw [List.take_append_drop, ofDigitChars_digitsOf]) (digits_le_wholeLimit h) (by omega)
  rwa [hlength, show -((-d.exponent).toNat : Int) = d.exponent by omega] at hspelled

/-- The point stands in front of the digits. -/
theorem spelledAs_in_front {count : Nat}
    (hpoint : d.exponent + (digitsOf d.digits).length = -(count : Int)) :
    SpelledAs ('0' :: '.' :: (List.replicate count '0' ++ digitsOf d.digits)) d.digits
      d.exponent := by
  have hlow := h.exponent_ge
  have hlimit : exponentLimit = 2147483647 := rfl
  have hall := isWholePart_digitsOf d.digits
  have hlength : (List.replicate count '0' ++ digitsOf d.digits).length
      = (-d.exponent).toNat := by
    rw [List.length_append, List.length_replicate]
    omega
  have hspelled := spelledAs_fraction (isWholePart_digitsOf 0)
    (List.append_ne_nil_of_right_ne_nil _ hall.ne_nil)
    (List.forall_mem_append.2 ⟨fun _ ↦ isAsciiDigit_of_mem_replicate, hall.digits⟩)
    ((ofDigitChars_replicate_append (count + 1) _).trans (ofDigitChars_digitsOf _))
    (digits_le_wholeLimit h) (by omega)
  rwa [hlength, show -((-d.exponent).toNat : Int) = d.exponent by omega] at hspelled

/-- There is an exponent, which counts from the first digit. -/
theorem spelledAs_scientific {c : Char} {rest : List Char}
    (hdigits : digitsOf d.digits = c :: rest) : SpelledAs ((if rest = [] then [c] else c :: '.' :: rest)
      ++ powerPart (d.exponent + (digitsOf d.digits).length - 1)) d.digits d.exponent := by
  have hlow := h.exponent_ge
  have hhigh := h.exponent_le
  have hcount := length_digitsOf_le h
  have hlimit : exponentLimit = 2147483647 := rfl
  have hlength : (digitsOf d.digits).length = rest.length + 1 := congrArg List.length hdigits
  generalize hpower : d.exponent + ((digitsOf d.digits).length : Int) - 1 = power
  have hspelled := spelledAs_power hdigits (digits_le_wholeLimit h) power (by omega) (by omega)
  rwa [show power - (rest.length : Int) = d.exponent by omega] at hspelled

/-- **A shortest decimal is read as what can be scaled**, in whichever form it is written. -/
theorem exists_spelledAs_render : ∃ significand power, SpelledAs d.render significand power ∧
    ∃ y, scale (ofWhole significand) power scaleSteps = some y := by
  have hscaled := exists_scale h
  rw [Scientific.render]
  dsimp only
  split
  · next hform =>
    obtain ⟨n, hspelled⟩ := exists_spelledAs_integer h hform.1 hform.2
    exact ⟨_, _, hspelled, exists_scale_of_neg (by decide) _ _⟩
  refine ⟨d.digits, d.exponent, ?_, hscaled⟩
  split
  · exact spelledAs_inside h (by omega) (by omega) (by omega)
  · split
    · exact spelledAs_in_front h (by omega)
    · have hne := (isWholePart_digitsOf d.digits).ne_nil
      obtain ⟨c, rest, hdigits⟩ := List.exists_cons_of_ne_nil hne
      have hspelled := spelledAs_scientific h hdigits
      rw [hdigits] at hspelled ⊢
      cases rest with
      | nil => exact hspelled
      | cons c' rest => exact hspelled

end Render

/-! ## Doubles -/

theorem exists_spelledAs {x : Float} (h : x.isFinite = true) : ∃ negative cs significand power,
    renderFloat x = minus negative ++ cs ∧ SpelledAs cs significand power ∧
      ∃ y, scale (ofWhole significand) power scaleSteps = some y := by
  have hminus : ∀ cs, (if twoTo 63 ≤ x.toBits.toNat then ['-'] else []) ++ cs
      = minus (decide (twoTo 63 ≤ x.toBits.toNat)) ++ cs := by
    intro cs
    rw [minus]
    simp only [decide_eq_true_eq]
  rw [renderFloat]
  split
  · have hzero : SpelledAs ['0', '.', '0'] (10 * 0) (-1) :=
      spelledAs_whole (n := 0) (Nat.zero_le _)
    exact ⟨_, _, _, _, hminus _, hzero, exists_scale_of_neg (by decide) _ _⟩
  · next hne =>
    obtain ⟨_, _, hspelled, hscaled⟩ := exists_spelledAs_render (shortest_inRange h hne)
    exact ⟨_, _, _, _, hminus _, hspelled, hscaled⟩

/-- **Every finite double is read as some double.** -/
theorem exists_readsAs {x : Float} (h : x.isFinite = true) : ∃ y, ReadsAs x y := by
  obtain ⟨negative, cs, significand, power, hrender, hspelled, y, hscaled⟩ := exists_spelledAs h
  obtain ⟨n, hread, hnegative, hspells⟩ := hspelled negative
  refine ⟨if n.negative then -y else y, n, hrender ▸ hread, ?_⟩
  rw [hspells.value_eq, hscaled]
  rfl

/-- What the decimal of a double is read as, if it is that of a double. -/
def rereadFloat (x : Float) : Float :=
  match readNumeral (renderFloat x) with
  | some (n, _) =>
    match n.value with
    | .float y => y
    | _ => x
  | none => x

theorem ReadsAs.rereadFloat_eq {x y : Float} (h : ReadsAs x y) : rereadFloat x = y := by
  obtain ⟨n, hread, hvalue⟩ := h
  rw [rereadFloat, hread]
  dsimp only
  rw [hvalue]

theorem readsAs_rereadFloat {x : Float} (h : x.isFinite = true) : ReadsAs x (rereadFloat x) := by
  obtain ⟨y, hy⟩ := exists_readsAs h
  rwa [hy.rereadFloat_eq]

end Glossopoeia.Json
