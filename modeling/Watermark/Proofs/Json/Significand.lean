import Watermark.Proofs.Json.Number
import Watermark.Proofs.Number.Shortest

/-!
# Short numbers are rounded once

A float is read by rounding its digits as a whole number, rounding a power of ten, and rounding their product or
quotient. Up to 2⁵³ and 10²² the first two are exact, so that one rounding is left.

* `Significand.scaled_eq_nearest?`: small digits and a small power of ten give the nearest number;
* `Token.decimal_eq_written`: digits that fit 64 bits are all kept;
* `Token.scaled_of_short`: a number with few digits near its point is read as the nearest number to what is written.
-/

namespace Watermark.Json

/-! ## One rounding -/

namespace Significand

/-- Up to 2⁵³ spacings that are not too wide are exact. -/
theorem exists_ofNat? {k e : Nat} (hk : k ≤ twoPow 53) (he : e ≤ 970) :
    ∃ m, Magnitude.ofNat? (k * twoPow e) = some m ∧ m.units = k * twoPow e * Magnitude.unitsPerOne := by
  have hunits : k * twoPow e * Magnitude.unitsPerOne = k * twoPow (e + 1074) := by
    rw [Nat.mul_assoc, Magnitude.unitsPerOne, ← twoPow_add]
  have hlt : k * twoPow (e + 1074) < unitsLimit := by
    have hlog : twoPow (53 + (e + 1074)) < twoPow 2098 := twoPow_lt (by omega)
    rw [twoPow_add] at hlog
    rw [unitsLimit]
    exact Nat.lt_of_le_of_lt (Nat.mul_le_mul_right _ hk) hlog
  refine ⟨⟨k * twoPow (e + 1074), representable_mul hk hlt⟩, ?_, hunits.symm⟩
  have hself := Magnitude.nearest?_units ⟨k * twoPow (e + 1074), representable_mul hk hlt⟩ Nat.one_pos
  rw [Nat.mul_one] at hself
  rw [Magnitude.ofNat?, hunits]
  exact hself

/-- The powers of ten up to 10²² are exact. -/
theorem exists_tenPower? {k : Nat} (hk : k ≤ 22) :
    ∃ p, tenPower? k = some p ∧ p.units = tenPow k * Magnitude.unitsPerOne := by
  have hfive : Nat.pow 5 k ≤ twoPow 53 :=
    Nat.le_trans (Nat.pow_le_pow_right (by decide) hk) (by decide : Nat.pow 5 22 ≤ twoPow 53)
  obtain ⟨p, hp, hunits⟩ := exists_ofNat? hfive (by omega : k ≤ 970)
  rw [Nat.mul_comm (Nat.pow 5 k), twoPow_mul_fivePow] at hp hunits
  exact ⟨p, hp, hunits⟩

/-- Small digits with a small exponent are rounded once. -/
theorem scaled_eq_nearest? {n : Nat} {e : Int} (hn : n ≤ twoPow 53) (hlow : -22 ≤ e) (hhigh : e ≤ 22) :
    scaled n e = Decimal.nearest? ⟨n, e⟩ := by
  have hone : 0 < Magnitude.unitsPerOne := twoPow_pos _
  obtain ⟨m, hm, hunits⟩ := exists_ofNat? hn (Nat.zero_le 970)
  rw [show twoPow 0 = 1 from rfl, Nat.mul_one] at hm hunits
  rw [Decimal.nearest?_eq_quotient, Decimal.numerator, Decimal.denominator]
  cases e with
  | ofNat k =>
    have hk : k ≤ 22 := Int.ofNat_le.1 hhigh
    have hzero : (-Int.ofNat k).toNat = 0 := by
      rw [Int.ofNat_eq_natCast]
      omega
    obtain ⟨p, hp, hten⟩ := exists_tenPower? hk
    have hscaled : scaled n (.ofNat k) = m.mul? p := by
      rw [scaled, hm, Option.bind_eq_bind, Option.bind_some]
      dsimp only
      rw [if_pos (Nat.le_trans hk (by decide)), hp, Option.bind_some]
    rw [hscaled, Magnitude.mul?, hunits, hten, hzero]
    generalize Magnitude.unitsPerOne = u at hone ⊢
    refine Magnitude.nearest?_congr hone (tenPow_pos 0) ?_
    show n * u * (tenPow k * u) * tenPow 0 = n * tenPow k * u * u
    rw [show tenPow 0 = 1 from rfl, Nat.mul_one]
    ac_rfl
  | negSucc k =>
    have hk : k + 1 ≤ 22 := by omega
    obtain ⟨p, hp, hten⟩ := exists_tenPower? hk
    have hscaled : scaled n (.negSucc k) = m.div? p := by
      rw [scaled, hm, Option.bind_eq_bind, Option.bind_some]
      dsimp only
      rw [scaleDown, if_pos (Nat.le_trans hk (by decide)), hp, Option.bind_eq_bind, Option.bind_some]
    rw [hscaled, Magnitude.div?, hunits, hten]
    generalize Magnitude.unitsPerOne = u at hone ⊢
    refine Magnitude.nearest?_congr (Nat.mul_pos (tenPow_pos _) hone) (tenPow_pos _) ?_
    show n * u * u * tenPow (k + 1) = n * tenPow 0 * u * (tenPow (k + 1) * u)
    rw [show tenPow 0 = 1 from rfl, Nat.mul_one]
    ac_rfl

end Significand

namespace Token

/-! ## The number as it is written -/

theorem appendDigits_eq {t : Text} {n : Nat} (h : Nat.ofDigitChars 10 t n < significandLimit) :
    appendDigits n t = (Nat.ofDigitChars 10 t n, []) := by
  induction t generalizing n with
  | nil => simp [appendDigits]
  | cons c t ih =>
    rw [Nat.ofDigitChars_cons, Nat.mul_comm] at h ⊢
    have hnext : n * 10 + (c.toNat - '0'.toNat) < significandLimit :=
      Nat.lt_of_le_of_lt (Text.le_ofDigitChars t _) h
    rw [appendDigits]
    show (if n * 10 + (c.toNat - '0'.toNat) < significandLimit then _ else _) = _
    rw [if_pos hnext]
    exact ih h

/-- The number that the parts denote exactly. -/
def written (t : Token) : Decimal :=
  ⟨Nat.ofDigitChars 10 (t.whole ++ t.fraction.getD []) 0, -((t.fraction.getD []).length : Int) + t.writtenExponent⟩

/-- Digits that fit 64 bits are all kept. -/
theorem decimal_eq_written {t : Token} (h : t.written.digits < significandLimit) : t.decimal = t.written := by
  unfold written at h ⊢
  rw [Nat.ofDigitChars_append] at h ⊢
  have hwhole : Nat.ofDigitChars 10 t.whole 0 < significandLimit := Nat.lt_of_le_of_lt (Text.le_ofDigitChars _ _) h
  unfold decimal
  rw [appendDigits_eq hwhole]
  dsimp only
  rw [appendDigits_eq h]
  simp

theorem float_eq_ok_iff {t : Token} {x : Binary64} : t.float = .ok x ↔
    ∃ m, Significand.scaled t.decimal.digits t.decimal.exponent = some m ∧ x = .finite t.negative m := by
  unfold float
  generalize Significand.scaled t.decimal.digits t.decimal.exponent = scaled
  cases scaled with
  | none => exact ⟨nofun, fun ⟨_, h, _⟩ => nomatch h⟩
  | some m =>
    rw [Option.elim_some]
    constructor
    · intro h
      exact ⟨m, rfl, (Except.ok.inj h).symm⟩
    · rintro ⟨_, ⟨rfl⟩, rfl⟩
      rfl

/-- Short numbers are read as the nearest number to what is written. -/
theorem scaled_of_short {t : Token} (hdigits : t.written.digits ≤ twoPow 53) (hlow : -22 ≤ t.written.exponent)
    (hhigh : t.written.exponent ≤ 22) :
    Significand.scaled t.decimal.digits t.decimal.exponent = t.written.nearest? := by
  have hlimit : twoPow 53 < significandLimit := twoPow_lt (by decide : 53 < 64)
  rw [decimal_eq_written (Nat.lt_of_le_of_lt hdigits hlimit)]
  exact Significand.scaled_eq_nearest? hdigits hlow hhigh

end Token

end Watermark.Json
