import Mathlib.Algebra.Order.Field.Basic
import Mathlib.Algebra.Order.Field.Rat
import Watermark.Proofs.Json.Float
import Watermark.Proofs.Number.Bounds

/-!
# Plain numerals and the numbers they denote

A plain numeral is made of digits, with at most one point among them (`Decimal.IsPlain`), and denotes a rational
number (`Decimal.value` of `Decimal.ofPositional`). The positional notation is plain (`Decimal.isPlain_positional`).

The shortest digits of a magnitude denote it only nearly. But nothing is rounded past a representable number, so what
is read back as a magnitude above 0 is above 0 (`Decimal.value_pos`), and what is read back as one below 1 is below 1
(`Decimal.value_lt_one`).
-/

namespace Watermark

namespace Decimal

/-! ## Plain numerals -/

open Json.Token (Digits)

/-- Digits, and where there is a point, digits on both sides of it. -/
def IsPlain (t : Text) : Prop := Digits t ∨ ∃ a b, Digits a ∧ Digits b ∧ t = a ++ '.' :: b

theorem isPlain_positional {d : Decimal} (h : d.digits ≠ 0) : IsPlain (d.positional []) := by
  have hdigits := Json.Token.digits_significant h
  have hzeros : ∀ k, (zeros k).All Char.isDigit := fun k c => isDigit_of_mem_zeros
  unfold positional
  dsimp only
  split
  · have hfraction := Digits.of_append (hzeros (-d.pointAt).toNat) hdigits
    refine .inr ⟨['0'], _, Json.Token.digits_zero, hfraction, ?_⟩
    rw [List.append_assoc]
    rfl
  split
  · rw [List.append_nil]
    exact .inl (hdigits.append (hzeros _))
  · exact .inr ⟨_, _, hdigits.take (by omega), hdigits.drop (by omega), rfl⟩

/-! ## Values -/

/-- The number that a decimal is. -/
def value (d : Decimal) : ℚ := d.digits * 10 ^ d.exponent

variable {d : Decimal} {m : Magnitude}

theorem value_eq_quotient (d : Decimal) : d.value = d.numerator / d.denominator := by
  have hpower : ∀ n, ((tenPow n : Nat) : ℚ) = 10 ^ (n : Int) := fun n => by
    rw [zpow_natCast]
    exact Nat.cast_pow 10 n
  have hexp : (d.exponent.toNat : Int) - (-d.exponent).toNat = d.exponent := by omega
  calc d.value = d.digits * (10 ^ (d.exponent.toNat : Int) / 10 ^ ((-d.exponent).toNat : Int)) := by
        rw [value, ← zpow_sub₀ (by norm_num), hexp]
    _ = d.numerator / d.denominator := by
        rw [← hpower, ← hpower, numerator, denominator, Nat.cast_mul, mul_div_assoc]

/-- What is read as a magnitude above 0 is above 0. -/
theorem value_pos (hd : d.nearest? = some m) (hm : m.units ≠ 0) : 0 < d.value := by
  have hdigits : d.digits ≠ 0 := by
    intro h0
    obtain ⟨n, e⟩ := d
    cases h0
    rw [Magnitude.nearest?_zero_digits] at hd
    cases hd
    exact hm rfl
  exact mul_pos (Nat.cast_pos.2 (Nat.pos_of_ne_zero hdigits)) (zpow_pos (by norm_num) _)

/-- What is read as a magnitude below 1 is below 1. -/
theorem value_lt_one (hd : d.nearest? = some m) (hm : m.units < Magnitude.unitsPerOne) : d.value < 1 := by
  obtain ⟨one, hone⟩ := Magnitude.exists_of_representable Magnitude.representable_one
  have hden : 0 < d.denominator := tenPow_pos _
  have hcast : (0 : ℚ) < d.denominator := Nat.cast_pos.2 hden
  rw [nearest?_eq_quotient, ← hone] at hd
  rw [← hone] at hm
  rw [value_eq_quotient, div_lt_one hcast, Nat.cast_lt]
  refine Nat.lt_of_not_le fun hle => Nat.not_le.2 hm ?_
  -- otherwise the number is read as 1 or more
  refine Magnitude.le_nearest? hd hden ?_
  rw [Nat.mul_comm]
  exact Nat.mul_le_mul_right _ hle

end Decimal

end Watermark
