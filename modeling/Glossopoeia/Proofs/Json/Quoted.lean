import Glossopoeia.Json.Quoted
import Glossopoeia.Json.Parser

/-!
# Strings that are written and read again

The escape of a character is read as one step that spells it (`readUnits_escape`), the one by number
included: only control characters are written so, and none of them is half of a surrogate pair.  So
between its quotes every string is read as it was written (`readString_quote`).
-/

set_option autoImplicit false

namespace Glossopoeia.Json

open Text

/-- Put a step before what has been read. -/
def pushUnit (u : Unit16) (read : List Unit16 × List Char) : List Unit16 × List Char :=
  (u :: read.1, read.2)

/-- The step spells the character, whatever follows. -/
def Unit16.Spells (u : Unit16) (c : Char) : Prop :=
  ∀ units, joinUnits (u :: units) = (joinUnits units).map (c :: ·)

theorem spells_char (c : Char) : (Unit16.char c).Spells c := fun _ ↦ rfl

/-- A character by number, if the number is not that of a surrogate. -/
theorem spells_code {c : Char} (h : c.toNat < 0xD800) : (Unit16.code c.toNat).Spells c := by
  intro units
  have hleading : isLeading c.toNat = false := by
    rw [isLeading, Bool.and_eq_false_iff, decide_eq_false_iff_not]
    exact .inl (by omega)
  have htrailing : isTrailing c.toNat = false := by
    rw [isTrailing, Bool.and_eq_false_iff, decide_eq_false_iff_not]
    exact .inl (by omega)
  rw [joinUnits.eq_def]
  dsimp only
  rw [if_neg (by simp [hleading]), if_neg (by simp [htrailing]), Char.ofNat_toNat]

variable {c e : Char} {rest : List Char}

theorem readUnits_short (he : e ≠ 'u') (h : shortEscape e = some c) :
    readUnits ('\\' :: e :: rest) = (readUnits rest).map (pushUnit (.char c)) := by
  rw [readUnits]
  · rw [h]
    cases readUnits rest with
    | none => rfl
    | some read => rfl
  · rintro a b c d rest' rfl
    exact absurd rfl he

theorem readUnits_number {a b c d : Char} {n : Nat} (h : hexNumber [a, b, c, d] = some n) :
    readUnits ('\\' :: 'u' :: a :: b :: c :: d :: rest)
      = (readUnits rest).map (pushUnit (.code n)) := by
  rw [readUnits, h]
  cases readUnits rest with
  | none => rfl
  | some read => rfl

theorem readUnits_plain (hquote : c ≠ '"') (hslash : c ≠ '\\') (hcontrol : ¬c.toNat < 0x20) :
    readUnits (c :: rest) = (readUnits rest).map (pushUnit (.char c)) := by
  rw [readUnits]
  · rw [if_neg (by simp [hslash]; omega)]
    cases readUnits rest with
    | none => rfl
    | some read => rfl
  · exact fun h ↦ hquote h
  · rintro a b c d rest' h
    exact absurd h hslash
  · rintro e rest' h
    exact absurd h hslash

theorem hexNumber_control : ∀ n < 0x20,
    hexNumber ['0', '0', hexDigit (n / 16), hexDigit n] = some n := by decide

/-- **The escape of a character is read as one step that spells it.** -/
theorem readUnits_escape (c : Char) : ∃ u : Unit16, u.Spells c ∧
    ∀ rest, readUnits (escape c ++ rest) = (readUnits rest).map (pushUnit u) := by
  by_cases hshort : ∃ e, e ≠ 'u' ∧ shortEscape e = some c ∧ escape c = ['\\', e]
  · obtain ⟨e, he, hchar, hescape⟩ := hshort
    refine ⟨.char c, spells_char c, fun rest ↦ ?_⟩
    rw [hescape]
    exact readUnits_short he hchar
  · have hne : ∀ d e, e ≠ 'u' → shortEscape e = some d → escape d = ['\\', e] → c ≠ d := by
      rintro d e he hd hescape rfl
      exact hshort ⟨e, he, hd, hescape⟩
    have hquote : c ≠ '"' := hne _ '"' (by decide) rfl rfl
    have hslash : c ≠ '\\' := hne _ '\\' (by decide) rfl rfl
    have hback : c ≠ '\x08' := hne _ 'b' (by decide) rfl rfl
    have hform : c ≠ '\x0c' := hne _ 'f' (by decide) rfl rfl
    have hline : c ≠ '\n' := hne _ 'n' (by decide) rfl rfl
    have hreturn : c ≠ '\r' := hne _ 'r' (by decide) rfl rfl
    have htab : c ≠ '\t' := hne _ 't' (by decide) rfl rfl
    rw [escape, if_neg hquote, if_neg hslash, if_neg hback, if_neg hform, if_neg hline,
      if_neg hreturn, if_neg htab]
    by_cases hcontrol : c.toNat < 0x20
    · rw [if_pos hcontrol]
      refine ⟨.code c.toNat, spells_code (by omega), fun rest ↦ ?_⟩
      exact readUnits_number (hexNumber_control _ hcontrol)
    · rw [if_neg hcontrol]
      exact ⟨.char c, spells_char c, fun rest ↦ readUnits_plain hquote hslash hcontrol⟩

theorem readUnits_flatMap_escape (cs rest : List Char) : ∃ units, joinUnits units = some cs ∧
    readUnits (cs.flatMap escape ++ '"' :: rest) = some (units, rest) := by
  induction cs with
  | nil => exact ⟨[], rfl, rfl⟩
  | cons c cs ih =>
    obtain ⟨units, hjoin, hread⟩ := ih
    obtain ⟨u, hspells, hescape⟩ := readUnits_escape c
    refine ⟨u :: units, by rw [hspells, hjoin]; rfl, ?_⟩
    rw [List.flatMap_cons, List.append_assoc, hescape, hread]
    rfl

/-- **A string between its quotes is read as it was written.** -/
theorem readString_quote (s : String) (rest : List Char) :
    readString (s.toList.flatMap escape ++ '"' :: rest) = some (some s, rest) := by
  obtain ⟨units, hjoin, hread⟩ := readUnits_flatMap_escape s.toList rest
  rw [readString, hread]
  show some ((joinUnits units).map String.ofList, rest) = _
  rw [hjoin, Option.map_some, String.ofList_toList]

end Glossopoeia.Json
