import Watermark.Proofs.Json.Content
import Watermark.Proofs.Number.PlainNumeral

/-!
# Numbers that are in range

A number is read as a float by rounding its digits, rounding a power of ten and rounding their product, so a number
just below the largest float may be refused. But each rounding adds at most the 2⁵²nd part
(`Magnitude.rounded_mul_le`), and digits that are dropped only make the number smaller (`Token.value_decimal_le`). So
nothing up to 1.797 · 10³⁰⁸ is refused (`Token.exists_float`), however it is written. Small numbers are never refused,
since dividing by a power of ten makes nothing larger (`Significand.exists_scaleDown`).
-/

namespace Watermark

theorem tenPow_mono {j k : Nat} (h : j ≤ k) : tenPow j ≤ tenPow k := Nat.pow_le_pow_right (by decide) h

/-! ## How far rounding goes up -/

namespace Magnitude

/-- Rounding adds at most the 2⁵²nd part to what has 53 binary digits. -/
theorem rounded_mul_le {num den : Nat} (h : twoPow 52 ≤ num / den) :
    rounded num den * twoPow 52 ≤ num / den * (twoPow 52 + 1) := by
  have hround := roundHalfEven_le_succ num (den * twoPow (spacingLog (num / den)))
  rw [← Nat.div_div_eq_div_mul] at hround
  unfold rounded
  generalize num / den = q at h hround ⊢
  have hq : q ≠ 0 := Nat.ne_of_gt (Nat.lt_of_lt_of_le (twoPow_pos 52) h)
  have hspacing : twoPow (spacingLog q) * twoPow 52 ≤ q := by
    have hlog : ¬ q.log2 < 52 := fun hlt => Nat.not_lt.2 h ((log2_lt_iff hq).1 hlt)
    have hexp : spacingLog q + 52 = q.log2 := by
      unfold spacingLog
      omega
    rw [← twoPow_add, hexp]
    exact Nat.log2_self_le hq
  generalize roundHalfEven num (den * twoPow (spacingLog q)) = k at hround ⊢
  generalize twoPow (spacingLog q) = spacing at hround hspacing ⊢
  generalize twoPow 52 = p at hspacing ⊢
  calc k * spacing * p
      ≤ (q / spacing + 1) * spacing * p := Nat.mul_le_mul_right _ (Nat.mul_le_mul_right _ hround)
    _ = q / spacing * spacing * p + spacing * p := by rw [Nat.add_mul, Nat.add_mul, Nat.one_mul]
    _ ≤ q * p + q := Nat.add_le_add (Nat.mul_le_mul_right _ (Nat.div_mul_le_self ..)) hspacing
    _ = q * (p + 1) := (Nat.mul_succ ..).symm

theorem units_ofNat?_le {n : Nat} {m : Magnitude} (h : ofNat? n = some m) :
    m.units * twoPow 52 ≤ n * unitsPerOne * (twoPow 52 + 1) := by
  have hunits := nearest?_eq_some_iff.1 h
  by_cases hn : n = 0
  · have hzero : rounded (n * unitsPerOne) 1 ≤ zero.units := by
      refine rounded_le_of_le zero.representable Nat.one_pos ?_
      rw [hn, Nat.zero_mul]
      exact Nat.zero_le _
    rw [hunits] at hzero
    rw [Nat.le_zero.1 hzero, Nat.zero_mul]
    exact Nat.zero_le _
  · have hone : twoPow 52 ≤ unitsPerOne := Nat.le_of_lt (twoPow_lt (by decide))
    have hlarge : twoPow 52 ≤ n * unitsPerOne / 1 := by
      rw [Nat.div_one]
      exact Nat.le_trans hone (Nat.le_mul_of_pos_left _ (Nat.pos_of_ne_zero hn))
    have hle := rounded_mul_le hlarge
    rw [hunits, Nat.div_one] at hle
    exact hle

/-- The largest number. -/
theorem exists_largest : ∃ m : Magnitude, m.units = (twoPow 53 - 1) * twoPow 971 * unitsPerOne := by
  have hlimit : unitsLimit = twoPow 53 * twoPow 2045 := twoPow_add 53 2045
  have hpower : twoPow 2045 = twoPow 971 * unitsPerOne := by rw [unitsPerOne, ← twoPow_add]
  have hlt : (twoPow 53 - 1) * twoPow 2045 < unitsLimit := by
    rw [hlimit]
    exact Nat.mul_lt_mul_of_pos_right (Nat.sub_one_lt (Nat.ne_of_gt (twoPow_pos 53))) (twoPow_pos 2045)
  have h := representable_mul (Nat.sub_le (twoPow 53) 1) hlt
  rw [hpower, ← Nat.mul_assoc] at h
  exact exists_of_representable h

/-- No whole number up to the largest one is too large. -/
theorem exists_ofNat?_of_le {n : Nat} (h : n ≤ (twoPow 53 - 1) * twoPow 971) : ∃ m, ofNat? n = some m := by
  obtain ⟨largest, hlargest⟩ := exists_largest
  have hle : n * unitsPerOne ≤ largest.units * 1 := by
    rw [Nat.mul_one, hlargest]
    exact Nat.mul_le_mul_right _ h
  obtain ⟨m, hm, -⟩ := exists_nearest?_le Nat.one_pos hle
  exact ⟨m, hm⟩

/-- Nor is the product of two numbers that were rounded, where they were together somewhat smaller. -/
theorem exists_mul? {a b : Magnitude} {n k : Nat} (ha : a.units * twoPow 52 ≤ n * unitsPerOne * (twoPow 52 + 1))
    (hb : b.units * twoPow 52 ≤ k * unitsPerOne * (twoPow 52 + 1)) (h : n * k ≤ 1797 * tenPow 305) :
    ∃ m, a.mul? b = some m := by
  obtain ⟨largest, hlargest⟩ := exists_largest
  -- what two roundings add leaves the bound below the largest number
  have hroom : 1797 * tenPow 305 * ((twoPow 52 + 1) * (twoPow 52 + 1))
      ≤ (twoPow 53 - 1) * twoPow 971 * (twoPow 52 * twoPow 52) := by decide +kernel
  have hone : 0 < unitsPerOne := twoPow_pos 1074
  have hpow : 0 < twoPow 52 * twoPow 52 := Nat.mul_pos (twoPow_pos 52) (twoPow_pos 52)
  have hle : a.units * b.units ≤ largest.units * unitsPerOne := by
    rw [hlargest]
    generalize twoPow 52 = p at ha hb hroom hpow
    generalize (twoPow 53 - 1) * twoPow 971 = limit at hroom ⊢
    generalize 1797 * tenPow 305 = bound at h hroom
    generalize unitsPerOne = u at ha hb hone ⊢
    refine Nat.le_of_mul_le_mul_right ?_ hpow
    calc a.units * b.units * (p * p)
        = a.units * p * (b.units * p) := by ac_rfl
      _ ≤ n * u * (p + 1) * (k * u * (p + 1)) := Nat.mul_le_mul ha hb
      _ = n * k * ((p + 1) * (p + 1)) * (u * u) := by ac_rfl
      _ ≤ bound * ((p + 1) * (p + 1)) * (u * u) := Nat.mul_le_mul_right _ (Nat.mul_le_mul_right _ h)
      _ ≤ limit * (p * p) * (u * u) := Nat.mul_le_mul_right _ hroom
      _ = limit * u * u * (p * p) := by ac_rfl
  obtain ⟨m, hm, -⟩ := exists_nearest?_le hone hle
  exact ⟨m, hm⟩

theorem exists_div? {a b : Magnitude} (h : unitsPerOne ≤ b.units) : ∃ m, a.div? b = some m := by
  have hpos : 0 < b.units := Nat.lt_of_lt_of_le (twoPow_pos 1074) h
  obtain ⟨m, hm, -⟩ := exists_nearest?_le hpos (Nat.mul_le_mul_left a.units h)
  exact ⟨m, hm⟩

end Magnitude

theorem Decimal.value_le {n k j : Nat} {e e' : Int} (he : e = e' + j) (h : n * tenPow j ≤ k) :
    Decimal.value ⟨n, e⟩ ≤ Decimal.value ⟨k, e'⟩ := by
  have hpower : (10 : ℚ) ^ j = (tenPow j : Nat) := (Nat.cast_pow 10 j).symm
  have hcast : (n : ℚ) * 10 ^ j ≤ k := by
    rw [hpower]
    exact_mod_cast h
  calc (n : ℚ) * 10 ^ e = n * 10 ^ j * 10 ^ e' := by
        rw [he, zpow_add₀ (by norm_num), zpow_natCast, mul_comm ((10 : ℚ) ^ e'), mul_assoc]
    _ ≤ k * 10 ^ e' := mul_le_mul_of_nonneg_right hcast (zpow_nonneg (by norm_num) _)

namespace Json

/-! ## Significands that are in range -/

namespace Significand

open Magnitude (unitsPerOne)

theorem tenPow_le {k : Nat} (hk : k ≤ largestPower) : tenPow k ≤ (twoPow 53 - 1) * twoPow 971 := by
  have hlargest : tenPow largestPower ≤ (twoPow 53 - 1) * twoPow 971 := by decide +kernel
  exact Nat.le_trans (tenPow_mono hk) hlargest

/-- The powers of ten up to the largest are in range, and not rounded far. -/
theorem exists_tenPower?_of_le {k : Nat} (hk : k ≤ largestPower) : ∃ p, tenPower? k = some p
    ∧ unitsPerOne ≤ p.units ∧ p.units * twoPow 52 ≤ tenPow k * unitsPerOne * (twoPow 52 + 1) := by
  obtain ⟨p, hp⟩ := Magnitude.exists_ofNat?_of_le (tenPow_le hk)
  obtain ⟨one, hone⟩ := Magnitude.exists_of_representable Magnitude.representable_one
  refine ⟨p, hp, ?_, Magnitude.units_ofNat?_le hp⟩
  rw [← hone]
  refine Magnitude.le_nearest? hp Nat.one_pos ?_
  rw [hone, Nat.mul_one]
  exact Nat.le_mul_of_pos_left _ (tenPow_pos k)

/-- Nothing becomes too large by making it smaller. -/
theorem exists_scaleDown (steps k : Nat) (m : Magnitude) : ∃ n, scaleDown steps k m = some n := by
  induction steps generalizing k m with
  | zero => exact ⟨m, rfl⟩
  | succ steps ih =>
    rw [scaleDown]
    split
    · rename_i hk
      obtain ⟨p, hp, hone, -⟩ := exists_tenPower?_of_le hk
      obtain ⟨n, hn⟩ := Magnitude.exists_div? (a := m) hone
      rw [hp, Option.bind_eq_bind, Option.bind_some]
      exact ⟨n, hn⟩
    split
    · exact ⟨m, rfl⟩
    · obtain ⟨p, hp, hone, -⟩ := exists_tenPower?_of_le (Nat.le_refl largestPower)
      obtain ⟨n, hn⟩ := Magnitude.exists_div? (a := m) hone
      rw [hp, Option.bind_eq_bind, Option.bind_some, hn, Option.bind_some]
      exact ih _ n

/-- A significand that fits 64 bits is not too large. -/
theorem exists_ofNat?_of_lt {n : Nat} (h : n < significandLimit) : ∃ m, Magnitude.ofNat? n = some m := by
  have hlimit : significandLimit ≤ (twoPow 53 - 1) * twoPow 971 := by decide +kernel
  exact Magnitude.exists_ofNat?_of_le (Nat.le_trans (Nat.le_of_lt h) hlimit)

theorem exists_scaled {n : Nat} {e : Int} (hn : n < significandLimit)
    (h : Decimal.value ⟨n, e⟩ ≤ 1797 * 10 ^ 305) : ∃ m, scaled n e = some m := by
  obtain ⟨m, hm⟩ := exists_ofNat?_of_lt hn
  rw [scaled, hm, Option.bind_eq_bind, Option.bind_some]
  cases e with
  | negSucc k => exact exists_scaleDown _ _ m
  | ofNat k =>
    have hbound : n * tenPow k ≤ 1797 * tenPow 305 := by
      have hpower : ∀ j, ((tenPow j : Nat) : ℚ) = 10 ^ j := fun j => Nat.cast_pow 10 j
      rw [Decimal.value, Int.ofNat_eq_natCast, zpow_natCast, ← hpower, ← hpower] at h
      exact_mod_cast h
    dsimp only
    split
    · rename_i hk
      obtain ⟨p, hp, -, hpunits⟩ := exists_tenPower?_of_le hk
      rw [hp, Option.bind_some]
      exact Magnitude.exists_mul? (Magnitude.units_ofNat?_le hm) hpunits hbound
    · -- a power of ten above the largest one can only scale zero
      rename_i hk
      have hzero : n = 0 := by
        have hlarge : tenPow (largestPower + 1) ≤ tenPow k := tenPow_mono (Nat.not_le.1 hk)
        have hroom : 1797 * tenPow 305 < tenPow (largestPower + 1) := by decide +kernel
        by_contra hne
        have hle := Nat.le_mul_of_pos_left (tenPow k) (Nat.pos_of_ne_zero hne)
        exact Nat.not_le.2 hroom (Nat.le_trans hlarge (Nat.le_trans hle hbound))
      have hunits : m.units = 0 := by
        have hle := Magnitude.units_ofNat?_le hm
        rw [hzero, Nat.zero_mul, Nat.zero_mul] at hle
        exact (Nat.mul_eq_zero.1 (Nat.le_zero.1 hle)).resolve_right (Nat.ne_of_gt (twoPow_pos 52))
      rw [if_pos hunits]
      exact ⟨m, rfl⟩

end Significand

/-! ## Dropped digits -/

namespace Token

theorem mul_le_ofDigitChars (t : Text) (n : Nat) : n * tenPow t.length ≤ Nat.ofDigitChars 10 t n := by
  rw [Nat.ofDigitChars_eq_ofDigitChars_zero, Nat.mul_comm]
  exact Nat.le_add_right _ _

/-- Digits are appended as long as they fit; the first one that does not makes the number too large. -/
theorem appendDigits_spec {n : Nat} (t : Text) (hn : n < significandLimit) : ∃ taken,
    t = taken ++ (appendDigits n t).2 ∧ (appendDigits n t).1 = Nat.ofDigitChars 10 taken n
      ∧ (appendDigits n t).1 < significandLimit
      ∧ ∀ c rest, (appendDigits n t).2 = c :: rest →
        significandLimit ≤ 10 * (appendDigits n t).1 + (c.toNat - '0'.toNat) := by
  induction t generalizing n with
  | nil => exact ⟨[], rfl, rfl, hn, nofun⟩
  | cons c t ih =>
    rw [appendDigits]
    split
    · rename_i hnext
      obtain ⟨taken, htaken, hvalue, hlt, hfull⟩ := ih hnext
      refine ⟨c :: taken, congrArg _ htaken, ?_, hlt, hfull⟩
      rw [hvalue, Nat.ofDigitChars_cons, Nat.mul_comm]
    · rename_i hnext
      refine ⟨[], rfl, rfl, hn, ?_⟩
      rintro d rest ⟨rfl, rfl⟩
      omega

/-- The significand is nowhere above the digits that it was made of. -/
theorem significand_le (t : Token) :
    (appendDigits (appendDigits 0 t.whole).1 (t.fraction.getD [])).1
        * tenPow ((appendDigits 0 t.whole).2.length
          + (appendDigits (appendDigits 0 t.whole).1 (t.fraction.getD [])).2.length)
      ≤ t.written.digits := by
  have hzero : 0 < significandLimit := by decide
  obtain ⟨a, hwhole, hn, hlt, hfull⟩ := appendDigits_spec t.whole hzero
  obtain ⟨b, hfraction, hm, hlt', -⟩ := appendDigits_spec (t.fraction.getD []) hlt
  have hdigits : t.written.digits = Nat.ofDigitChars 10 (t.fraction.getD []) (Nat.ofDigitChars 10 t.whole 0) :=
    Nat.ofDigitChars_append 0
  rw [hdigits]
  generalize t.fraction.getD [] = fraction at *
  generalize t.whole = whole at *
  generalize (appendDigits 0 whole).2 = dropped at *
  generalize (appendDigits 0 whole).1 = n at *
  generalize (appendDigits n fraction).2 = ignored at *
  generalize (appendDigits n fraction).1 = m at *
  cases dropped with
  | nil =>
    rw [hwhole, List.append_nil, ← hn, hfraction, Nat.ofDigitChars_append, ← hm, List.length_nil, Nat.zero_add]
    exact mul_le_ofDigitChars ignored m
  | cons c rest =>
    have hfull := hfull c rest rfl
    have hvalue : Nat.ofDigitChars 10 whole 0 = Nat.ofDigitChars 10 rest (10 * n + (c.toNat - '0'.toNat)) := by
      rw [hwhole, Nat.ofDigitChars_append, ← hn, Nat.ofDigitChars_cons]
    generalize c.toNat - '0'.toNat = d at hfull hvalue
    -- the first dropped digit is worth more than digits that fit behind it all the same
    have hfirst : m * tenPow (ignored.length + 1) ≤ (10 * n + d) * tenPow fraction.length := by
      cases b with
      | nil =>
        rw [hm, hfraction, List.nil_append, Nat.ofDigitChars_nil, tenPow_add, Nat.mul_comm (tenPow _), ← Nat.mul_assoc]
        refine Nat.mul_le_mul_right _ ?_
        show n * 10 ≤ 10 * n + d
        omega
      | cons c' b =>
        refine Nat.mul_le_mul (Nat.le_of_lt (Nat.lt_of_lt_of_le hlt' hfull)) (tenPow_mono ?_)
        rw [hfraction, List.length_append, List.length_cons]
        omega
    have hlength : (c :: rest).length + ignored.length = ignored.length + 1 + rest.length := by
      rw [List.length_cons]
      omega
    calc m * tenPow ((c :: rest).length + ignored.length)
        = m * tenPow (ignored.length + 1) * tenPow rest.length := by rw [hlength, tenPow_add, Nat.mul_assoc]
      _ ≤ (10 * n + d) * tenPow fraction.length * tenPow rest.length := Nat.mul_le_mul_right _ hfirst
      _ = (10 * n + d) * tenPow rest.length * tenPow fraction.length := Nat.mul_right_comm ..
      _ ≤ Nat.ofDigitChars 10 whole 0 * tenPow fraction.length :=
        Nat.mul_le_mul_right _ (hvalue ▸ mul_le_ofDigitChars rest _)
      _ ≤ Nat.ofDigitChars 10 fraction (Nat.ofDigitChars 10 whole 0) := mul_le_ofDigitChars fraction _

/-- The digits that are dropped only make the number smaller. -/
theorem value_decimal_le (t : Token) : t.decimal.value ≤ t.written.value := by
  have hzero : 0 < significandLimit := by decide
  obtain ⟨_, -, -, hlt, -⟩ := appendDigits_spec t.whole hzero
  obtain ⟨taken, hfraction, -⟩ := appendDigits_spec (t.fraction.getD []) hlt
  have hlength := congrArg List.length hfraction
  rw [List.length_append] at hlength
  have hexp : t.decimal.exponent = t.written.exponent + ((appendDigits 0 t.whole).2.length
      + (appendDigits (appendDigits 0 t.whole).1 (t.fraction.getD [])).2.length : Nat) := by
    simp only [decimal, written]
    omega
  exact Decimal.value_le hexp (significand_le t)

theorem significand_lt (t : Token) : t.decimal.digits < significandLimit := by
  have hzero : 0 < significandLimit := by decide
  obtain ⟨_, -, -, hlt, -⟩ := appendDigits_spec t.whole hzero
  obtain ⟨_, -, -, hlt', -⟩ := appendDigits_spec (t.fraction.getD []) hlt
  exact hlt'

/-- A number up to 1.797 · 10³⁰⁸ is in range. -/
theorem exists_float {t : Token} (h : t.written.value ≤ 1797 * 10 ^ 305) : ∃ x, t.float = .ok x := by
  obtain ⟨m, hm⟩ := Significand.exists_scaled (significand_lt t) (le_trans (value_decimal_le t) h)
  exact ⟨_, float_eq_ok_iff.2 ⟨m, hm, rfl⟩⟩

end Token

/-- So it is read as a float, if it is not whole. -/
theorem isSome_float? {t : Token} (h : t.written.value ≤ 1797 * 10 ^ 305) : (Content.number t).float?.isSome := by
  obtain ⟨x, hx⟩ := Token.exists_float h
  show ((t.value.toOption).map Numeral.toBinary64).isSome = true
  rw [Option.isSome_map, Token.value_eq, hx]
  split <;> rfl

end Json

end Watermark
