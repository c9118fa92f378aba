import Mathlib.Algebra.Order.Field.Basic
import Mathlib.Algebra.Order.Field.Rat
import Mathlib.Tactic.Linarith
import Mathlib.Tactic.Ring
import Watermark.Proofs.Number.PlainNumeral

/-!
# Rounding finds the nearest number

A number is nearest to a rational one if no other number has a smaller distance to it, and if it is the even one where
another has the same distance (`Binary64.IsNearest`). There is one such number at most (`Binary64.IsNearest.same`):
between two even numbers stands a third one (`Magnitude.exists_between`), which is nearer than both.

Rounding finds it. On the grid of the spacing at the quotient it goes wrong by half a spacing at most
(`Magnitude.rounded_near`), and a magnitude that is not on this grid has a power of two between it and the quotient that
is (`Magnitude.rounded_nearest`).

* `Binary64.isNearest_of_nearest?`: a decimal is read as the number nearest to it.
-/

namespace Watermark

/-- Below 2⁵³ spacings. -/
theorem lt_twoPow_spacingLog (n : Nat) : n < twoPow (53 + spacingLog n) := by
  by_cases h0 : n = 0
  · rw [h0]
    exact twoPow_pos _
  · rw [← log2_lt_iff h0, spacingLog]
    omega

namespace Magnitude

variable {num den : Nat}

/-! ## The grid at a quotient -/

/-- Rounding goes wrong by half a step at most, and by half a step only towards an even number. -/
theorem roundHalfEven_near (num : Nat) (hd : 0 < den) :
    2 * |(roundHalfEven num den * den : Int) - num| ≤ den
      ∧ (2 * |(roundHalfEven num den * den : Int) - num| = den → 2 ∣ roundHalfEven num den) := by
  have hdiv : num / den * den + num % den = num := Nat.div_add_mod' num den
  have hmod := Nat.mod_lt num hd
  unfold roundHalfEven
  dsimp only
  generalize num / den = floor at hdiv ⊢
  generalize num % den = rest at hdiv hmod ⊢
  have hnum : (num : Int) = floor * den + rest := by exact_mod_cast hdiv.symm
  split
  · rename_i h
    have hlt : 2 * rest < den := Nat.compare_eq_lt.1 h
    have hdist : (floor * den : Int) - num = -rest := by rw [hnum]; omega
    rw [hdist, abs_neg, Nat.abs_cast]
    omega
  · rename_i h
    have hgt : den < 2 * rest := Nat.compare_eq_gt.1 h
    have hdist : ((floor + 1 : Nat) * den : Int) - num = (den - rest : Nat) := by
      rw [hnum, Nat.cast_succ, Int.add_mul]
      omega
    rw [hdist, Nat.abs_cast]
    omega
  · rename_i h
    have heq : 2 * rest = den := Nat.compare_eq_eq.1 h
    rcases Nat.mod_two_eq_zero_or_one floor with heven | hodd
    · have hdist : (floor * den : Int) - num = -rest := by rw [hnum]; omega
      rw [heven, Nat.add_zero, hdist, abs_neg, Nat.abs_cast]
      omega
    · have hdist : ((floor + 1 : Nat) * den : Int) - num = rest := by
        rw [hnum, Nat.cast_succ, Int.add_mul]
        omega
      rw [hodd, hdist, Nat.abs_cast]
      omega

theorem rounded_near (num : Nat) (hd : 0 < den) :
    2 * |(rounded num den : ℚ) - num / den| ≤ twoPow (spacingLog (num / den))
      ∧ (2 * |(rounded num den : ℚ) - num / den| = twoPow (spacingLog (num / den)) →
        2 * twoPow (spacingLog (num / den)) ∣ rounded num den) := by
  have hpos := twoPow_pos (spacingLog (num / den))
  unfold rounded
  generalize twoPow (spacingLog (num / den)) = spacing at hpos ⊢
  obtain ⟨hle, heven⟩ := roundHalfEven_near num (Nat.mul_pos hd hpos)
  generalize roundHalfEven num (den * spacing) = k at hle heven ⊢
  have hden : (0 : ℚ) < den := Nat.cast_pos.2 hd
  have hdist : ((|k * (den * spacing : Nat) - num| : Int) : ℚ) = |((k * spacing : Nat) : ℚ) - num / den| * den := by
    rw [← abs_of_pos hden, ← abs_mul, abs_of_pos hden, sub_mul, div_mul_cancel₀ _ hden.ne']
    push_cast
    congr 2
    ring
  generalize (|k * (den * spacing : Nat) - num| : Int) = gap at hle heven hdist
  constructor
  · have hcast : 2 * (gap : ℚ) ≤ (den * spacing : Nat) := by exact_mod_cast hle
    rw [hdist, Nat.cast_mul den] at hcast
    refine le_of_mul_le_mul_right ?_ hden
    linarith
  · intro heq
    have hcast : 2 * (gap : ℚ) = (den * spacing : Nat) := by
      rw [hdist, Nat.cast_mul den, ← heq]
      ring
    exact Nat.mul_dvd_mul_right (heven (by exact_mod_cast hcast)) _

/-- Two points of a grid are a step apart. -/
theorem step_le_dist {step a b : Nat} (ha : step ∣ a) (hb : step ∣ b) (hne : a ≠ b) :
    (step : ℚ) ≤ |(a : ℚ) - b| := by
  obtain ⟨i, rfl⟩ := ha
  obtain ⟨j, rfl⟩ := hb
  have hij : (i : Int) - j ≠ 0 := fun h => hne (by rw [Int.ofNat_inj.1 (Int.sub_eq_zero.1 h)])
  have hone : (1 : ℚ) ≤ |(i : ℚ) - j| := by exact_mod_cast Int.one_le_abs hij
  rw [Nat.cast_mul, Nat.cast_mul, ← mul_sub, abs_mul, Nat.abs_cast]
  exact le_mul_of_one_le_right (Nat.cast_nonneg _) hone

/-- No representable number is nearer to a quotient than the one that it is rounded to, and where one is as near, the
quotient is rounded to an even number of spacings. -/
theorem rounded_nearest (num : Nat) {n : Nat} (hn : Representable n) (hd : 0 < den) :
    |(rounded num den : ℚ) - num / den| ≤ |(n : ℚ) - num / den|
      ∧ (|(n : ℚ) - num / den| = |(rounded num den : ℚ) - num / den| →
        n = rounded num den ∨ 2 * twoPow (spacingLog (num / den)) ∣ rounded num den) := by
  have hself : twoPow (spacingLog (num / den)) ∣ rounded num den := Nat.dvd_mul_left ..
  obtain ⟨hnear, heven⟩ := rounded_near num hd
  have hbetween := dvd_or_power_between num hn hd
  have hden : (0 : ℚ) < den := Nat.cast_pos.2 hd
  generalize twoPow (spacingLog (num / den)) = spacing at hself hnear heven hbetween ⊢
  generalize rounded num den = r at hself hnear heven ⊢
  have hgrid : ∀ k, spacing ∣ k → k ≠ r → spacing - |(r : ℚ) - num / den| ≤ |(k : ℚ) - num / den| := by
    intro k hk hne
    have hstep := step_le_dist hk hself hne
    have htriangle := abs_sub_le (k : ℚ) (num / den) r
    rw [abs_sub_comm (num / den : ℚ) r] at htriangle
    linarith
  rcases hbetween with hdvd | ⟨p, hdvd, hlt, hle⟩
  · by_cases heq : n = r
    · rw [heq]
      exact ⟨le_rfl, fun _ => .inl rfl⟩
    · have hother := hgrid n hdvd heq
      exact ⟨by linarith, fun h => .inr (heven (by linarith))⟩
  · -- the power between them is nearer than the number
    have hpower : |(r : ℚ) - num / den| ≤ |(p : ℚ) - num / den| := by
      by_cases heq : p = r
      · rw [heq]
      · have hother := hgrid p hdvd heq
        linarith
    have hp : (p : ℚ) ≤ num / den := by
      rw [le_div_iff₀ hden]
      exact_mod_cast hle
    have hnp : (n : ℚ) < p := Nat.cast_lt.2 hlt
    rw [abs_of_nonpos (by linarith : (p : ℚ) - num / den ≤ 0)] at hpower
    rw [abs_of_nonpos (by linarith : (n : ℚ) - num / den ≤ 0)]
    exact ⟨by linarith, fun h => absurd h (by linarith)⟩

/-! ## Even magnitudes -/

/-- An even number of spacings: the last of the 53 binary digits is 0. -/
def IsEven (m : Magnitude) : Prop := 2 * twoPow (spacingLog m.units) ∣ m.units

theorem isEven_of_units_eq_zero {m : Magnitude} (h : m.units = 0) : m.IsEven := by
  rw [IsEven, h]
  exact Nat.dvd_zero _

/-- Where rounding leads up to a power of two, the spacing grows, but the power is a multiple of many spacings. -/
theorem isEven_of_rounded {m : Magnitude} (hm : rounded num den = m.units) (hd : 0 < den)
    (h : 2 * twoPow (spacingLog (num / den)) ∣ m.units) : m.IsEven := by
  unfold IsEven
  by_cases hle : spacingLog m.units ≤ spacingLog (num / den)
  · exact Nat.dvd_trans (Nat.mul_dvd_mul_left 2 (twoPow_dvd hle)) h
  · generalize he : spacingLog (num / den) = e at hle
    have hlog : 53 + e ≤ m.units.log2 := by
      unfold spacingLog at hle
      omega
    have hne : m.units ≠ 0 := by
      intro h0
      rw [h0] at hlog
      exact absurd hlog (by rw [Nat.log2_zero]; omega)
    have hpower : twoPow (53 + e) ≤ m.units :=
      Nat.le_trans (Nat.le_of_dvd (twoPow_pos _) (twoPow_dvd hlog)) (Nat.log2_self_le hne)
    have hrepresentable : Representable (twoPow (53 + e)) := by
      have hlt := Nat.lt_of_le_of_lt hpower m.representable.1
      rw [twoPow_add] at hlt ⊢
      exact representable_mul (Nat.le_refl _) hlt
    have hquotient : num < twoPow (53 + e) * den := by
      rw [← Nat.div_lt_iff_lt_mul hd, ← he]
      exact lt_twoPow_spacingLog _
    have hunits : m.units = twoPow (53 + e) :=
      Nat.le_antisymm (hm ▸ rounded_le_of_le hrepresentable hd (Nat.le_of_lt hquotient)) hpower
    rw [hunits, spacingLog, log2_twoPow, show 2 = twoPow 1 from rfl, ← twoPow_add]
    exact twoPow_dvd (by omega)

/-- Between two even magnitudes stands a third one. -/
theorem exists_between {m n : Magnitude} (hm : m.IsEven) (hn : n.IsEven) (hlt : m.units < n.units) :
    ∃ k : Magnitude, m.units < k.units ∧ k.units < n.units := by
  have hstep : 2 * twoPow (spacingLog m.units) ∣ n.units :=
    Nat.dvd_trans (Nat.mul_dvd_mul_left 2 (twoPow_dvd (spacingLog_mono (Nat.le_of_lt hlt)))) hn
  have hbelow := lt_twoPow_spacingLog m.units
  have hpos := twoPow_pos (spacingLog m.units)
  obtain ⟨i, hi⟩ := hm
  obtain ⟨j, hj⟩ := hstep
  rw [twoPow_add] at hbelow
  generalize hspacing : twoPow (spacingLog m.units) = spacing at hi hj hbelow hpos
  have hij : i + 1 ≤ j := by
    have hmul : 2 * spacing * i < 2 * spacing * j := by omega
    exact Nat.lt_of_mul_lt_mul_left hmul
  have hnext : m.units + 2 * spacing ≤ n.units := by
    calc m.units + 2 * spacing = 2 * spacing * (i + 1) := by rw [hi, Nat.mul_succ]
      _ ≤ n.units := hj ▸ Nat.mul_le_mul_left _ hij
  have hodd : m.units + spacing = (2 * i + 1) * spacing := by
    rw [hi, Nat.add_mul]
    ring
  have hdigits : 2 * i < twoPow 53 := by
    refine Nat.lt_of_mul_lt_mul_right (a := spacing) (Nat.lt_of_le_of_lt (Nat.le_of_eq ?_) hbelow)
    rw [hi]
    ring
  have hlimit : m.units + spacing < unitsLimit := by
    have := n.representable.1
    omega
  rw [hodd] at hlimit
  have hrepresentable : Representable ((2 * i + 1) * spacing) := by
    rw [← hspacing] at hlimit ⊢
    exact representable_mul hdigits hlimit
  rw [← hodd] at hrepresentable
  exact ⟨⟨_, hrepresentable⟩, Nat.lt_add_of_pos_right hpos, by dsimp only; omega⟩

/-- The number that a magnitude is. -/
def value (m : Magnitude) : ℚ := m.units / unitsPerOne

variable {m n : Magnitude}

theorem unitsPerOne_cast_pos : (0 : ℚ) < unitsPerOne := Nat.cast_pos.2 (twoPow_pos 1074)

theorem value_nonneg (m : Magnitude) : 0 ≤ m.value := div_nonneg (Nat.cast_nonneg _) (Nat.cast_nonneg _)

theorem value_lt_iff : m.value < n.value ↔ m.units < n.units := by
  rw [value, value, div_lt_div_iff_of_pos_right unitsPerOne_cast_pos, Nat.cast_lt]

theorem value_zero : zero.value = 0 := by
  rw [value, show zero.units = 0 from rfl, Nat.cast_zero, zero_div]

/-- A decimal is read as a magnitude nearest to it. -/
theorem nearest_of_nearest? {d : Decimal} (h : d.nearest? = some m) (n : Magnitude) :
    |m.value - d.value| ≤ |n.value - d.value|
      ∧ (|n.value - d.value| = |m.value - d.value| → n = m ∨ m.IsEven) := by
  rw [Decimal.nearest?_eq_quotient, nearest?_eq_some_iff] at h
  have hden : 0 < d.denominator := tenPow_pos _
  obtain ⟨hle, htie⟩ := rounded_nearest (d.numerator * unitsPerOne) n.representable hden
  have hunit := unitsPerOne_cast_pos
  have hquotient : ((d.numerator * unitsPerOne : Nat) : ℚ) / d.denominator = d.value * unitsPerOne := by
    rw [Decimal.value_eq_quotient, Nat.cast_mul]
    ring
  -- distances in units
  have hdist : ∀ k : Magnitude, |(k.units : ℚ) - d.value * unitsPerOne| = |k.value - d.value| * unitsPerOne := by
    intro k
    rw [← abs_of_pos hunit, ← abs_mul, abs_of_pos hunit, sub_mul, value, div_mul_cancel₀ _ hunit.ne']
  rw [hquotient, h, hdist, hdist] at hle htie
  refine ⟨le_of_mul_le_mul_right hle hunit, fun heq => ?_⟩
  exact (htie (by rw [heq])).imp Magnitude.ext fun heven => isEven_of_rounded h hden heven

end Magnitude

/-! ## Nearest numbers -/

/-- A number with a sign. -/
def signed (negative : Bool) (q : ℚ) : ℚ := if negative then -q else q

theorem abs_signed_sub {s t : Bool} {a b : ℚ} (ha : 0 ≤ a) (hb : 0 ≤ b) :
    |signed s a - signed t b| = if s = t then |a - b| else a + b := by
  have hsum : |-a - b| = a + b := by
    rw [abs_of_nonpos (by linarith)]
    ring
  have hneg : |-a + b| = |a - b| := by rw [← abs_neg, neg_add, neg_neg, ← sub_eq_add_neg]
  cases s <;> cases t <;> simp [signed, hsum, hneg, abs_of_nonneg, add_nonneg, ha, hb]

namespace Binary64

/-- The rational number that a finite one is. -/
def value : Binary64 → ℚ
  | .finite negative m => signed negative m.value
  | _ => 0

/-- The last of the binary digits is 0. -/
def IsEven : Binary64 → Prop
  | .finite _ m => m.IsEven
  | _ => False

/-- No finite number is nearer to `q`, and where another one is as near, this one is even. -/
structure IsNearest (x : Binary64) (q : ℚ) : Prop where
  isFinite : x.isFinite = true
  le {y : Binary64} : y.isFinite = true → |x.value - q| ≤ |y.value - q|
  even {y : Binary64} : y.isFinite = true → |y.value - q| = |x.value - q| → y.same x = true ∨ x.IsEven

variable {x y : Binary64}

theorem value_eq_of_place {p : Int} (hx : x.isFinite = true) (hp : x.place = some p) :
    x.value = p / Magnitude.unitsPerOne := by
  obtain ⟨s, m, rfl⟩ := exists_finite hx
  cases s with
  | false => rw [← Option.some.inj hp, value, signed, if_neg Bool.false_ne_true, Magnitude.value, Int.cast_natCast]
  | true =>
    rw [← Option.some.inj hp, value, signed, if_pos rfl, Magnitude.value, Int.cast_neg, Int.cast_natCast, neg_div]

theorem value_zero : zero.value = 0 := Magnitude.value_zero

theorem same_iff_value (hx : x.isFinite = true) (hy : y.isFinite = true) : x.same y = true ↔ x.value = y.value := by
  obtain ⟨p, hp⟩ := exists_place (ne_nan_of_isFinite hx)
  obtain ⟨q, hq⟩ := exists_place (ne_nan_of_isFinite hy)
  rw [same_iff_place, value_eq_of_place hx hp, value_eq_of_place hy hq, hp, hq,
    div_left_inj' Magnitude.unitsPerOne_cast_pos.ne', Int.cast_inj, Option.some.injEq]
  exact and_iff_left (Option.some_ne_none p)

/-- A decimal with a sign is read as the number nearest to it. -/
theorem isNearest_of_nearest? {d : Decimal} {m : Magnitude} (h : d.nearest? = some m) (negative : Bool) :
    (finite negative m).IsNearest (signed negative d.value) := by
  have hd : 0 ≤ d.value := mul_nonneg (Nat.cast_nonneg _) (zpow_nonneg (by norm_num) _)
  have hm := m.value_nonneg
  have hnear := Magnitude.nearest_of_nearest? h
  have hdist : |(finite negative m).value - signed negative d.value| = |m.value - d.value| := by
    rw [value, abs_signed_sub hm hd, if_pos rfl]
  refine ⟨rfl, fun hy => ?_, fun hy htie => ?_⟩
  · obtain ⟨t, n, rfl⟩ := exists_finite hy
    have hn := n.value_nonneg
    rw [hdist, value, abs_signed_sub hn hd]
    split
    · exact (hnear n).1
    · have hsum : |n.value - d.value| ≤ n.value + d.value := abs_le.2 ⟨by linarith, by linarith⟩
      exact (hnear n).1.trans hsum
  · obtain ⟨t, n, rfl⟩ := exists_finite hy
    have hn := n.value_nonneg
    rw [hdist, value, abs_signed_sub hn hd] at htie
    split at htie
    · rename_i hsign
      refine ((hnear n).2 htie).imp_left ?_
      rintro rfl
      rw [hsign]
      exact same_self nofun
    · -- a number on the other side of 0 can only be as near if it is 0
      have hzero : |Magnitude.zero.value - d.value| = d.value := by
        rw [Magnitude.value_zero, zero_sub, abs_neg, abs_of_nonneg hd]
      obtain ⟨hle, heven⟩ := hnear .zero
      rcases heven (by linarith) with rfl | heven
      · exact .inr (Magnitude.isEven_of_units_eq_zero rfl)
      · exact .inr heven

/-! ## There is one nearest number -/

/-- What is between two numbers at one distance is nearer. -/
theorem dist_lt_of_between {a b c q : ℚ} (hac : a < c) (hcb : c < b) (h : |a - q| = |b - q|) : |c - q| < |a - q| := by
  rcases abs_eq_abs.1 h with heq | hneg
  · linarith
  · rw [abs_of_neg (by linarith : a - q < 0), abs_lt]
    constructor <;> linarith

/-- Between two even numbers stands a third one. -/
theorem exists_between (hx : x.IsEven) (hy : y.IsEven) (hlt : x.value < y.value) :
    ∃ z : Binary64, z.isFinite = true ∧ x.value < z.value ∧ z.value < y.value := by
  have hpositive : ∀ k, (finite false k).value = k.value := fun _ => rfl
  have hnegative : ∀ k, (finite true k).value = -k.value := fun _ => rfl
  cases x with
  | nan => cases hx
  | infinite s => cases hx
  | finite s m =>
    cases y with
    | nan => cases hy
    | infinite t => cases hy
    | finite t n =>
      have hm := m.value_nonneg
      have hn := n.value_nonneg
      have hright : m.value < n.value → ∃ k : Magnitude, m.value < k.value ∧ k.value < n.value := fun h => by
        obtain ⟨k, hmk, hkn⟩ := Magnitude.exists_between hx hy (Magnitude.value_lt_iff.1 h)
        exact ⟨k, Magnitude.value_lt_iff.2 hmk, Magnitude.value_lt_iff.2 hkn⟩
      have hleft : n.value < m.value → ∃ k : Magnitude, n.value < k.value ∧ k.value < m.value := fun h => by
        obtain ⟨k, hnk, hkm⟩ := Magnitude.exists_between hy hx (Magnitude.value_lt_iff.1 h)
        exact ⟨k, Magnitude.value_lt_iff.2 hnk, Magnitude.value_lt_iff.2 hkm⟩
      cases s <;> cases t <;> simp only [hpositive, hnegative] at hlt ⊢
      · obtain ⟨k, hmk, hkn⟩ := hright hlt
        exact ⟨.finite false k, rfl, hmk, hkn⟩
      · linarith
      · -- on both sides of 0, which is between them if it is neither
        rcases hm.eq_or_lt with hm0 | hmpos
        · obtain ⟨k, hmk, hkn⟩ := hright (by linarith)
          exact ⟨.finite false k, rfl, by rw [hpositive]; linarith, hkn⟩
        rcases hn.eq_or_lt with hn0 | hnpos
        · obtain ⟨k, hnk, hkm⟩ := hleft (by linarith)
          exact ⟨.finite true k, rfl, neg_lt_neg hkm, by rw [hnegative]; linarith⟩
        · exact ⟨.zero, rfl, by rw [value_zero]; linarith, by rw [value_zero]; exact hnpos⟩
      · obtain ⟨k, hnk, hkm⟩ := hleft (neg_lt_neg_iff.1 hlt)
        exact ⟨.finite true k, rfl, neg_lt_neg hkm, neg_lt_neg hnk⟩

/-- A rational number has one nearest number. -/
theorem IsNearest.same {q : ℚ} (hx : x.IsNearest q) (hy : y.IsNearest q) : x.same y = true := by
  have hdist : |y.value - q| = |x.value - q| := le_antisymm (hy.le hx.isFinite) (hx.le hy.isFinite)
  by_contra hne
  have hyx : ¬ y.same x = true := by rwa [same_comm]
  have hxeven := (hx.even hy.isFinite hdist).resolve_left hyx
  have hyeven := (hy.even hx.isFinite hdist.symm).resolve_left hne
  rw [same_iff_value hx.isFinite hy.isFinite] at hne
  rcases lt_or_gt_of_ne hne with hlt | hgt
  · obtain ⟨z, hz, hxz, hzy⟩ := exists_between hxeven hyeven hlt
    exact absurd (hx.le hz) (not_le.2 (dist_lt_of_between hxz hzy hdist.symm))
  · obtain ⟨z, hz, hyz, hzx⟩ := exists_between hyeven hxeven hgt
    exact absurd (hy.le hz) (not_le.2 (dist_lt_of_between hyz hzx hdist))

end Binary64

end Watermark
