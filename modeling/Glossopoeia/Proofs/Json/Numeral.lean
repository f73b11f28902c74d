import Glossopoeia.Json.Decode
import Glossopoeia.Json.Printer
import Glossopoeia.Json.Number
import Glossopoeia.Proofs.Decimal.Whole

/-!
# Numbers that are written and read again

A numeral is read up to its end, whatever follows it, as long as that does not go on with it
(`readNumeral_append`).  So it is enough to ask how a numeral alone is read.

Whole numbers of 64 bits are read as they were written (`readNumeral_renderInt`).  A double is
written as its shortest decimal and read by one multiplication or division, which may miss it by a
bit (`ReadsAs`).  Of a whole number the digits are read with the zero behind the point as ten times
the number, and divided by ten (`readsAs_ofWhole`).  Up to `2 ^ 54 / 10` this gives back the number
(`IsShortWhole.readsAs`).
-/

set_option autoImplicit false

namespace Glossopoeia.Json

open Decimal Text

/-! ## What may follow a numeral -/

/-- What follows does not go on with a numeral. -/
def Stops (rest : List Char) : Prop :=
  ∀ c ∈ rest.head?, isAsciiDigit c = false ∧ c ≠ '.' ∧ c ≠ 'e' ∧ c ≠ 'E'

theorem stops_cons {c : Char} {rest : List Char}
    (h : isAsciiDigit c = false ∧ c ≠ '.' ∧ c ≠ 'e' ∧ c ≠ 'E') : Stops (c :: rest) := by
  intro d hd
  obtain rfl : c = d := by simpa using hd
  exact h

variable {cs left rest : List Char}

/-- Of a text that is continued, the same characters are taken, if they do not go on in what is
added. -/
theorem takeWhile_append_of_stops {p : Char → Bool} (cs : List Char)
    (h : cs.dropWhile p = [] → ∀ c ∈ rest.head?, p c = false) :
    (cs ++ rest).takeWhile p = cs.takeWhile p ∧
      (cs ++ rest).dropWhile p = cs.dropWhile p ++ rest := by
  induction cs with
  | nil =>
    cases rest with
    | nil => exact ⟨rfl, rfl⟩
    | cons c rest =>
      have hc : p c = false := h rfl c rfl
      exact ⟨List.takeWhile_cons_of_neg (by simp [hc]), List.dropWhile_cons_of_neg (by simp [hc])⟩
  | cons c cs ih =>
    rw [List.cons_append]
    cases hc : p c with
    | false =>
      rw [List.takeWhile_cons_of_neg (by simp [hc]), List.takeWhile_cons_of_neg (by simp [hc]),
        List.dropWhile_cons_of_neg (by simp [hc]), List.dropWhile_cons_of_neg (by simp [hc])]
      exact ⟨rfl, List.cons_append.symm⟩
    | true =>
      rw [List.dropWhile_cons_of_pos hc] at h
      rw [List.takeWhile_cons_of_pos hc, List.takeWhile_cons_of_pos hc,
        List.dropWhile_cons_of_pos hc, List.dropWhile_cons_of_pos hc, (ih h).1]
      exact ⟨rfl, (ih h).2⟩

/-! ## The parts of a numeral -/

/-- The digits that a text begins with, of which there have to be some. -/
def readDigits (cs : List Char) : Option (List Char × List Char) :=
  if cs.takeWhile isAsciiDigit = [] then none
  else some (cs.takeWhile isAsciiDigit, cs.dropWhile isAsciiDigit)

theorem readDigits_append {digits : List Char} (h : readDigits cs = some (digits, left))
    (hrest : ∀ c ∈ rest.head?, isAsciiDigit c = false) :
    readDigits (cs ++ rest) = some (digits, left ++ rest) := by
  obtain ⟨htake, hdrop⟩ := takeWhile_append_of_stops cs fun _ ↦ hrest
  rw [readDigits] at h ⊢
  rw [htake, hdrop]
  split at h
  · cases h
  · next hne =>
    cases h
    rw [if_neg hne]

/-- The sign of an exponent: is it negative? -/
def readSign : List Char → Bool × List Char
  | '-' :: rest => (true, rest)
  | '+' :: rest => (false, rest)
  | rest => (false, rest)

theorem readSign_append (hne : cs ≠ []) :
    readSign (cs ++ rest) = ((readSign cs).1, (readSign cs).2 ++ rest) := by
  cases cs with
  | nil => exact absurd rfl hne
  | cons c cs =>
    by_cases hminus : c = '-'
    · subst hminus
      rfl
    · by_cases hplus : c = '+'
      · subst hplus
        rfl
      · rw [List.cons_append, readSign, readSign]
        · rfl
        all_goals simp [hminus, hplus]

theorem readExponent_cons (c : Char) (cs : List Char) :
    readExponent (c :: cs) = if c == 'e' || c == 'E' then
      (readDigits (readSign cs).2).map fun digits ↦ (some ((readSign cs).1, digits.1), digits.2)
    else some (none, c :: cs) := by
  rw [readDigits]
  unfold readExponent
  simp only [List.span_eq_takeWhile_dropWhile]
  split
  · split
    · next h =>
      have hnil : (readSign cs).2.takeWhile isAsciiDigit = [] := (Prod.mk.inj h).1
      rw [if_pos hnil]
      rfl
    · next hne h =>
      have hcons : (readSign cs).2.takeWhile isAsciiDigit ≠ [] := by
        rw [← (Prod.mk.inj h).1] at hne
        exact hne
      obtain ⟨rfl, rfl⟩ := Prod.mk.inj h
      rw [if_neg hcons]
      rfl
  · rfl

theorem readExponent_append {e : Option (Bool × List Char)} (h : readExponent cs = some (e, left))
    (hrest : Stops rest) : readExponent (cs ++ rest) = some (e, left ++ rest) := by
  cases cs with
  | nil =>
    cases h
    cases rest with
    | nil => rfl
    | cons c rest =>
      obtain ⟨_, _, he, hE⟩ := hrest c rfl
      rw [List.nil_append, readExponent_cons, if_neg (by simp [he, hE])]
  | cons c cs =>
    rw [List.cons_append, readExponent_cons]
    rw [readExponent_cons] at h
    split at h
    · next hc =>
      rw [if_pos hc]
      obtain ⟨⟨digits, left'⟩, hdigits, heq⟩ := Option.map_eq_some_iff.1 h
      cases heq
      have hne : cs ≠ [] := by
        rintro rfl
        cases hdigits
      rw [readSign_append hne, readDigits_append hdigits fun c hc ↦ (hrest c hc).1]
      rfl
    · next hc =>
      cases h
      rw [if_neg hc, List.cons_append]

theorem readFraction_point (cs : List Char) :
    readFraction ('.' :: cs)
      = (readDigits cs).map fun digits ↦ (some digits.1, digits.2) := by
  rw [readFraction, readDigits, List.span_eq_takeWhile_dropWhile]
  cases cs.takeWhile isAsciiDigit with
  | nil => rfl
  | cons d ds => rfl

theorem readFraction_none (h : ∀ c ∈ cs.head?, c ≠ '.') : readFraction cs = some (none, cs) := by
  rw [readFraction]
  rintro rest rfl
  exact h '.' rfl rfl

theorem readFraction_append {f : Option (List Char)} (h : readFraction cs = some (f, left))
    (hrest : Stops rest) : readFraction (cs ++ rest) = some (f, left ++ rest) := by
  by_cases hpoint : cs.head? = some '.'
  · obtain ⟨cs, rfl⟩ := List.head?_eq_some_iff.1 hpoint
    rw [readFraction_point] at h
    obtain ⟨⟨digits, left'⟩, hdigits, heq⟩ := Option.map_eq_some_iff.1 h
    cases heq
    rw [List.cons_append, readFraction_point, readDigits_append hdigits fun c hc ↦ (hrest c hc).1]
    rfl
  · rw [readFraction_none fun c hc hpt ↦ hpoint (hpt ▸ hc)] at h
    cases h
    refine readFraction_none fun c hc hpt ↦ ?_
    subst hpt
    cases cs with
    | nil => exact (hrest '.' hc).2.1 rfl
    | cons d ds => exact hpoint hc

/-- Is there a minus sign in front? -/
def readMinus (cs : List Char) : Bool × List Char :=
  match cs with
  | '-' :: rest => (true, rest)
  | _ => (false, cs)

theorem readMinus_cons_of_ne {c : Char} (hc : c ≠ '-') :
    readMinus (c :: cs) = (false, c :: cs) := by
  rw [readMinus]
  rintro rest hrest
  exact hc (List.cons.inj hrest).1

theorem readMinus_append (hne : cs ≠ []) :
    readMinus (cs ++ rest) = ((readMinus cs).1, (readMinus cs).2 ++ rest) := by
  cases cs with
  | nil => exact absurd rfl hne
  | cons c cs =>
    by_cases hminus : c = '-'
    · subst hminus
      rfl
    · rw [List.cons_append, readMinus_cons_of_ne hminus, readMinus_cons_of_ne hminus]
      rfl

theorem readNumeral_eq (cs : List Char) :
    readNumeral cs = (readDigits (readMinus cs).2).bind fun whole ↦
      if whole.1.head? = some '0' ∧ whole.1.tail ≠ [] then none
      else (readFraction whole.2).bind fun fraction ↦
        (readExponent fraction.2).map fun exponent ↦
          (⟨(readMinus cs).1, whole.1, fraction.1, exponent.1⟩, exponent.2) := by
  rw [readDigits]
  unfold readNumeral
  simp only [List.span_eq_takeWhile_dropWhile]
  split
  · next h =>
    change (readMinus cs).2.takeWhile isAsciiDigit = [] at h
    rw [if_pos h]
    rfl
  · next h =>
    change (readMinus cs).2.takeWhile isAsciiDigit = _ at h
    rw [h]
    rfl
  · next hne hzero =>
    change (readMinus cs).2.takeWhile isAsciiDigit = [] → False at hne
    have hleading : ¬((((readMinus cs).2.takeWhile isAsciiDigit).head? = some '0')
        ∧ ((readMinus cs).2.takeWhile isAsciiDigit).tail ≠ []) := by
      rintro ⟨hhead, htail⟩
      obtain ⟨tail, heq⟩ := List.head?_eq_some_iff.1 hhead
      rw [heq] at htail
      cases tail with
      | nil => exact htail rfl
      | cons d ds => exact hzero d ds heq
    rw [if_neg hne, Option.bind_some, if_neg hleading]
    refine Option.bind_congr fun fraction _ ↦ ?_
    exact Option.map_eq_bind.symm

/-- **A numeral is read up to its end.** -/
theorem readNumeral_append {n : Numeral} (h : readNumeral cs = some (n, left))
    (hrest : Stops rest) : readNumeral (cs ++ rest) = some (n, left ++ rest) := by
  have hne : cs ≠ [] := by
    rintro rfl
    cases h
  rw [readNumeral_eq] at h ⊢
  obtain ⟨⟨whole, cs₁⟩, hwhole, h⟩ := Option.bind_eq_some_iff.1 h
  split at h
  · cases h
  · next hleading =>
    obtain ⟨⟨fraction, cs₂⟩, hfraction, h⟩ := Option.bind_eq_some_iff.1 h
    obtain ⟨⟨exponent, cs₃⟩, hexponent, heq⟩ := Option.map_eq_some_iff.1 h
    cases heq
    rw [readMinus_append hne, readDigits_append hwhole fun c hc ↦ (hrest c hc).1,
      Option.bind_some, if_neg hleading, readFraction_append hfraction hrest, Option.bind_some,
      readExponent_append hexponent hrest]
    rfl

/-- A numeral begins with a minus sign or a digit. -/
theorem exists_cons_of_readNumeral {n : Numeral} (h : readNumeral cs = some (n, left)) :
    ∃ c cs', cs = c :: cs' ∧ (c = '-' ∨ isAsciiDigit c = true) := by
  rw [readNumeral_eq] at h
  obtain ⟨whole, hwhole, -⟩ := Option.bind_eq_some_iff.1 h
  cases cs with
  | nil => cases hwhole
  | cons c cs =>
    refine ⟨c, cs, rfl, ?_⟩
    by_cases hminus : c = '-'
    · exact .inl hminus
    · refine .inr ?_
      rw [readMinus_cons_of_ne hminus, readDigits] at hwhole
      cases hc : isAsciiDigit c with
      | true => rfl
      | false =>
        rw [List.takeWhile_cons_of_neg (by simp [hc]), if_pos rfl] at hwhole
        cases hwhole

/-! ## Digits -/

theorem isAsciiDigit_of_mem_digitsOf {n : Nat} {c : Char} (hc : c ∈ digitsOf n) :
    isAsciiDigit c = true := by
  have hdigit := Nat.isDigit_of_mem_toDigits (by decide) (by decide) hc
  rw [Char.isDigit, Bool.and_eq_true, decide_eq_true_eq, decide_eq_true_eq] at hdigit
  rw [isAsciiDigit, Bool.and_eq_true, decide_eq_true_eq, decide_eq_true_eq]
  exact hdigit

/-- No zero leads the digits of a number but that of zero itself. -/
theorem head?_digitsOf {n : Nat} (hpos : 0 < n) : (digitsOf n).head? ≠ some '0' := by
  induction n using Nat.strongRecOn with
  | ind n ih =>
    by_cases hlt : n < 10
    · have hdigit : ∀ d < 10, 0 < d → Nat.digitChar d ≠ '0' := by decide
      rw [digitsOf, Nat.toDigits_of_lt_base hlt]
      exact fun h ↦ hdigit n hlt hpos (Option.some.inj h)
    · rw [digitsOf, Nat.toDigits_of_base_le (by decide) (by omega), List.head?_append_of_ne_nil _
        Nat.toDigits_ne_nil]
      exact ih (n / 10) (by omega) (by omega)

/-- Digits as they stand before the point: at least one, and no zero leads them but a single one. -/
structure IsWholePart (ds : List Char) : Prop where
  /-- There are some. -/
  ne_nil : ds ≠ []
  /-- They are digits. -/
  digits : ∀ c ∈ ds, isAsciiDigit c = true
  /-- A zero in front is the only one. -/
  leading : ds.head? = some '0' → ds.tail = []

theorem isWholePart_digitsOf (n : Nat) : IsWholePart (digitsOf n) where
  ne_nil := Nat.toDigits_ne_nil
  digits _ hc := isAsciiDigit_of_mem_digitsOf hc
  leading h := by
    rcases Nat.eq_zero_or_pos n with rfl | hpos
    · rfl
    · exact absurd h (head?_digitsOf hpos)

theorem readDigits_of_forall {ds : List Char} (hne : ds ≠ [])
    (hall : ∀ c ∈ ds, isAsciiDigit c = true) : readDigits ds = some (ds, []) := by
  rw [readDigits, List.takeWhile_eq_self_iff.2 hall, List.dropWhile_eq_nil_iff.2 hall, if_neg hne]

theorem le_ofDigitChars (ds : List Char) (value : Nat) : value ≤ Nat.ofDigitChars 10 ds value := by
  rw [Nat.ofDigitChars_eq_ofDigitChars_zero]
  exact Nat.le_add_right_of_le (Nat.le_mul_of_pos_left _ (Nat.pow_pos (by decide)))

theorem accumulate_eq {limit value : Nat} {ds : List Char}
    (h : Nat.ofDigitChars 10 ds value ≤ limit) :
    accumulate limit value ds = (Nat.ofDigitChars 10 ds value, []) := by
  induction ds generalizing value with
  | nil => rfl
  | cons d ds ih =>
    have hstep : Nat.ofDigitChars 10 (d :: ds) value
        = Nat.ofDigitChars 10 ds (value * 10 + digitValue d) := by
      rw [Nat.ofDigitChars_cons, Nat.mul_comm value]
      rfl
    rw [hstep] at h ⊢
    rw [accumulate, if_pos (Nat.le_trans (le_ofDigitChars ds _) h), ih h]

theorem ofDigitChars_digitsOf (n : Nat) : Nat.ofDigitChars 10 (digitsOf n) 0 = n :=
  Nat.ofDigitChars_ten_toDigits

theorem accumulate_digitsOf {limit n : Nat} (h : n ≤ limit) :
    accumulate limit 0 (digitsOf n) = (n, []) := by
  rw [accumulate_eq (by rw [ofDigitChars_digitsOf]; exact h), ofDigitChars_digitsOf]

/-! ## Numerals from their parts -/

/-- The minus sign of a negative number. -/
def minus (negative : Bool) : List Char := if negative then ['-'] else []

theorem readMinus_minus_append (negative : Bool) {ds : List Char} (hne : ds ≠ [])
    (hall : ∀ c ∈ ds, isAsciiDigit c = true) :
    readMinus (minus negative ++ (ds ++ cs)) = (negative, ds ++ cs) := by
  cases negative with
  | true => rfl
  | false =>
    obtain ⟨d, ds, rfl⟩ := List.exists_cons_of_ne_nil hne
    refine readMinus_cons_of_ne ?_
    rintro rfl
    cases hall '-' List.mem_cons_self

/-- **A sign, the digits before the point, a fraction and an exponent** are read as what they are. -/
theorem readNumeral_parts (negative : Bool) {whole : List Char} (hwhole : IsWholePart whole)
    {f : Option (List Char)} {e : Option (Bool × List Char)}
    (hfraction : readFraction cs = some (f, left)) (hexponent : readExponent left = some (e, []))
    (hstop : ∀ c ∈ cs.head?, isAsciiDigit c = false) :
    readNumeral (minus negative ++ (whole ++ cs)) = some (⟨negative, whole, f, e⟩, []) := by
  have hleading : ¬(whole.head? = some '0' ∧ whole.tail ≠ []) :=
    fun h ↦ h.2 (hwhole.leading h.1)
  rw [readNumeral_eq, readMinus_minus_append negative hwhole.ne_nil hwhole.digits,
    readDigits_append (readDigits_of_forall hwhole.ne_nil hwhole.digits) hstop, Option.bind_some,
    if_neg hleading, List.nil_append, hfraction, Option.bind_some, hexponent]
  rfl

/-! ## The numbers that numerals spell -/

/-- The power of ten that the last digit of a numeral counts. -/
def Numeral.power (n : Numeral) : Int :=
  (match n.exponent with
    | none => 0
    | some (true, digits) => -(Nat.ofDigitChars 10 digits 0 : Int)
    | some (false, digits) => Nat.ofDigitChars 10 digits 0) - (n.fraction.getD []).length

/-- The numeral is that of a double.  All of its digits are read, as the number `significand`, and
the last one counts `10 ^ power`. -/
structure Numeral.Spells (n : Numeral) (significand : Nat) (power : Int) : Prop where
  /-- It has a fraction or an exponent. -/
  isFloat : n.fraction ≠ none ∨ n.exponent ≠ none
  /-- The digits of both sides of the point are read together. -/
  digits : Nat.ofDigitChars 10 (n.whole ++ n.fraction.getD []) 0 = significand
  /-- They fit into 64 bits. -/
  digits_le : significand ≤ wholeLimit
  /-- The digits behind the point lower the exponent. -/
  power_eq : n.power = power
  /-- The exponent fits into 32 bits. -/
  exponent_le : ∀ e ∈ n.exponent, Nat.ofDigitChars 10 e.2 0 ≤ exponentLimit
  /-- So does the power. -/
  power_le : power.natAbs ≤ exponentLimit

/-- **What a numeral of a double is read as**: its digits, scaled. -/
theorem Numeral.Spells.value_eq {n : Numeral} {significand : Nat} {power : Int}
    (h : n.Spells significand power) : n.value
      = (scale (ofWhole significand) power scaleSteps).elim .unreadable (signed n.negative) := by
  have hfloat : n.value = n.toFloat := by
    rw [Numeral.value]
    split
    · next hfraction hexponent _ =>
      exact absurd h.isFloat (by simp [hfraction, hexponent])
    · rfl
  have hclamp : ∀ {p : Int}, p = power →
      max (min p exponentLimit) (-(exponentLimit : Int) - 1) = power := by
    have hbound := h.power_le
    intro p hp
    omega
  have hdigits := h.digits
  have hle := h.digits_le
  rw [Nat.ofDigitChars_append] at hdigits
  rw [← hdigits] at hle
  have hpower := h.power_eq
  have hexponent := h.exponent_le
  rw [hfloat, Numeral.toFloat, accumulate_eq ((le_ofDigitChars _ _).trans hle)]
  dsimp only
  rw [accumulate_eq hle, hdigits, ofWhole]
  rw [Numeral.power] at hpower
  cases he : n.exponent with
  | none =>
    rw [he] at hpower
    have hplaces : (([] : List Char).length : Int)
        - ((n.fraction.getD []).length - ([] : List Char).length : Nat) = power := by
      simpa using hpower
    dsimp only
    rw [hplaces]
    cases scale (UInt64.ofNat significand).toFloat power scaleSteps <;> rfl
  | some e =>
    obtain ⟨down, digits⟩ := e
    rw [he] at hpower hexponent
    have hsize : accumulate exponentLimit 0 digits = (Nat.ofDigitChars 10 digits 0, []) :=
      accumulate_eq (hexponent _ rfl)
    dsimp only
    rw [hsize]
    dsimp only
    rw [hclamp]
    · cases scale (UInt64.ofNat significand).toFloat power scaleSteps <;> rfl
    rw [List.length_nil, Nat.sub_zero]
    cases down with
    | false =>
      dsimp only at hpower
      rw [if_neg Bool.false_ne_true]
      omega
    | true =>
      dsimp only at hpower
      rw [if_pos rfl]
      omega

/-! ## Whole numbers -/

/-- **A whole number of 64 bits is read as it was written.** -/
theorem readNumeral_renderInt {n : Int} (hlow : -2 ^ 63 ≤ n) (hhigh : n < 2 ^ 64) :
    ∃ numeral, readNumeral (renderInt n) = some (numeral, []) ∧ numeral.value = .int n := by
  have hrender : renderInt n = minus (decide (n < 0)) ++ (digitsOf n.natAbs ++ []) := by
    rw [renderInt, minus, List.append_nil]
    simp only [decide_eq_true_eq]
  have hlimit : n.natAbs ≤ wholeLimit := by
    show _ ≤ 2 ^ 64 - 1
    omega
  refine ⟨_, hrender ▸ readNumeral_parts _ (isWholePart_digitsOf _) rfl rfl (by simp), ?_⟩
  rw [Numeral.value]
  dsimp only
  rw [accumulate_digitsOf hlimit]
  dsimp only
  split
  · next hnonneg =>
    congr 1
    simp at hnonneg
    omega
  · next hneg =>
    simp at hneg
    rw [if_pos]
    · congr 1
      omega
    · rw [Bool.and_eq_true, decide_eq_true_eq, decide_eq_true_eq]
      show 0 < _ ∧ _ ≤ 2 ^ 63
      omega

/-- The double `x` is written so that it is read as `y`. -/
def ReadsAs (x y : Float) : Prop :=
  ∃ numeral, readNumeral (renderFloat x) = some (numeral, []) ∧ numeral.value = .float y

/-- A whole number with a zero behind the point is read as ten times the number. -/
theorem spells_whole (negative : Bool) {n : Nat} (hle : 10 * n ≤ wholeLimit) :
    Numeral.Spells ⟨negative, digitsOf n, some ['0'], none⟩ (10 * n) (-1) where
  isFloat := .inl (Option.some_ne_none _)
  digits := by
    rw [Option.getD_some, Nat.ofDigitChars_append, ofDigitChars_digitsOf]
    rfl
  digits_le := hle
  power_eq := rfl
  exponent_le _ he := by cases he
  power_le := by decide

theorem readNumeral_whole (negative : Bool) (n : Nat) :
    readNumeral (minus negative ++ (digitsOf n ++ ['.', '0']))
      = some (⟨negative, digitsOf n, some ['0'], none⟩, []) :=
  readNumeral_parts negative (isWholePart_digitsOf n) rfl rfl (by rintro c ⟨⟩; rfl)

/-- **What is read of a whole number** that a double holds: ten times the number, divided by ten. -/
theorem readsAs_ofWhole {n : Nat} (hlt : n < 2 ^ 53) (negative : Bool) :
    ReadsAs (if negative then -ofWhole n else ofWhole n)
      (if negative then -(ofWhole (10 * n) / powerOfTen 1) else ofWhole (10 * n) / powerOfTen 1)
    := by
  have hrender : renderFloat (if negative then -ofWhole n else ofWhole n)
      = minus negative ++ (digitsOf n ++ ['.', '0']) := by
    rcases Nat.eq_zero_or_pos n with rfl | hpos
    · exact renderFloat_zero negative
    · have hcount : digitCount n ≤ 16 :=
        (Nat.length_toDigits_le_iff (by decide) (by decide)).2 (by omega)
      exact renderFloat_whole hpos hlt hcount negative
  have hlimit : 10 * n ≤ wholeLimit := by
    show _ ≤ 2 ^ 64 - 1
    omega
  refine ⟨_, hrender ▸ readNumeral_whole negative n, ?_⟩
  rw [(spells_whole negative hlimit).value_eq]
  rfl

/-- The double is a whole number of at most `2 ^ 54 / 10`, perhaps with a minus sign. -/
def IsShortWhole (x : Float) : Prop :=
  ∃ n ≤ 2 ^ 54 / 10, ∃ negative : Bool, x = if negative then -ofWhole n else ofWhole n

/-- **A whole number up to `2 ^ 54 / 10` is read as it was written.** -/
theorem IsShortWhole.readsAs {x : Float} (h : IsShortWhole x) : ReadsAs x x := by
  obtain ⟨n, hle, negative, rfl⟩ := h
  have hdiv : ofWhole (10 * n) / powerOfTen 1 = ofWhole n := by
    rcases Nat.eq_zero_or_pos n with rfl | hpos
    · decide
    · exact ofWhole_div_ten hpos hle
  have hreads := readsAs_ofWhole (by omega : n < 2 ^ 53) negative
  rw [hdiv] at hreads
  exact hreads

end Glossopoeia.Json
