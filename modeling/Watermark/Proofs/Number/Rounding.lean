import Watermark.Number.Decimal

/-!
# Rounding

`Magnitude.nearest?` rounds a quotient of natural numbers. What the theory of decimals needs of it:

* `nearest?_eq_some_iff`: the result has the rounded number of units;
* `nearest?_congr`: equal quotients are rounded alike;
* `nearest?_units`: a magnitude is rounded to itself;
* `exists_nearest?`: far below the limit nothing is too large;
* `Decimal.nearest?_shift`: a decimal may be written with more digits and a smaller exponent.
-/

namespace Watermark

theorem twoPow_lt {d e : Nat} (h : d < e) : twoPow d < twoPow e := Nat.pow_lt_pow_right (by decide) h

theorem tenPow_pos (e : Nat) : 0 < tenPow e := Nat.pow_pos (by decide)

theorem tenPow_add (d e : Nat) : tenPow (d + e) = tenPow d * tenPow e := Nat.pow_add 10 d e

namespace Magnitude

/-! ## The rounded number of units -/

/-- The number of units that `num / den` is rounded to, in range or not. -/
def rounded (num den : Nat) : Nat :=
  roundHalfEven num (den * twoPow (spacingLog (num / den))) * twoPow (spacingLog (num / den))

theorem nearest?_eq_some_iff {num den : Nat} {m : Magnitude} :
    nearest? num den = some m ↔ rounded num den = m.units := by
  unfold nearest? rounded
  dsimp only
  constructor
  · intro h
    split at h
    · cases h
      rfl
    · cases h
  · intro h
    rw [dif_pos (by rw [h]; exact m.representable.1)]
    exact congrArg some (Magnitude.ext h)

theorem compare_mul_right {a b k : Nat} (hk : 0 < k) : compare (a * k) (b * k) = compare a b := by
  rcases Nat.lt_trichotomy a b with h | h | h
  · rw [Nat.compare_eq_lt.2 h, Nat.compare_eq_lt.2 (Nat.mul_lt_mul_of_pos_right h hk)]
  · subst h
    rw [Nat.compare_eq_eq.2 rfl, Nat.compare_eq_eq.2 rfl]
  · rw [Nat.compare_eq_gt.2 h, Nat.compare_eq_gt.2 (Nat.mul_lt_mul_of_pos_right h hk)]

theorem roundHalfEven_mul_right (num den : Nat) {k : Nat} (hk : 0 < k) :
    roundHalfEven (num * k) (den * k) = roundHalfEven num den := by
  have hrem : 2 * (num * k % (den * k)) = 2 * (num % den) * k := by
    rw [Nat.mul_mod_mul_right, Nat.mul_assoc]
  unfold roundHalfEven
  rw [hrem, compare_mul_right hk, Nat.mul_div_mul_right _ _ hk]

theorem rounded_mul_right (num den : Nat) {k : Nat} (hk : 0 < k) :
    rounded (num * k) (den * k) = rounded num den := by
  unfold rounded
  rw [Nat.mul_div_mul_right _ _ hk, Nat.mul_right_comm, roundHalfEven_mul_right _ _ hk]

/-- Equal quotients are rounded alike. -/
theorem nearest?_congr {num den num' den' : Nat} (hd : 0 < den) (hd' : 0 < den')
    (h : num * den' = num' * den) : nearest? num den = nearest? num' den' := by
  have hr : rounded num den = rounded num' den' := by
    rw [← rounded_mul_right num den hd', h, Nat.mul_comm den, rounded_mul_right num' den' hd]
  refine Option.ext fun m => ?_
  rw [nearest?_eq_some_iff, nearest?_eq_some_iff, hr]

theorem roundHalfEven_mul_self (q : Nat) {den : Nat} (hd : 0 < den) :
    roundHalfEven (q * den) den = q := by
  have hlt : compare (2 * (q * den % den)) den = .lt := by
    rw [Nat.mul_mod_left, Nat.compare_eq_lt]
    exact hd
  unfold roundHalfEven
  rw [hlt, Nat.mul_div_cancel _ hd]

/-- A magnitude is a multiple of the spacing at it, so nothing is lost in rounding it. -/
theorem nearest?_units (m : Magnitude) {k : Nat} (hk : 0 < k) : nearest? (m.units * k) k = some m := by
  obtain ⟨q, hq⟩ := m.representable.2
  rw [nearest?_eq_some_iff, rounded, Nat.mul_div_cancel _ hk]
  have hnum : m.units * k = q * (k * twoPow (spacingLog m.units)) := by
    rw [← Nat.mul_assoc, Nat.mul_right_comm, Nat.mul_comm q, ← hq]
  rw [hnum, roundHalfEven_mul_self q (Nat.mul_pos hk (twoPow_pos _)), Nat.mul_comm q, ← hq]

/-- Rounding adds at most one spacing, and a spacing is at most the number itself or one unit. -/
theorem rounded_le (num den : Nat) : rounded num den ≤ 2 * (num / den) + 1 := by
  have hround := roundHalfEven_le_succ num (den * twoPow (spacingLog (num / den)))
  rw [← Nat.div_div_eq_div_mul] at hround
  unfold rounded
  generalize num / den = q at hround ⊢
  have hspacing : twoPow (spacingLog q) ≤ q + 1 := by
    by_cases h0 : q = 0
    · rw [h0]
      exact Nat.le_refl 1
    · have hlog : twoPow q.log2 ≤ q := Nat.log2_self_le h0
      have hdvd : twoPow (spacingLog q) ∣ twoPow q.log2 := twoPow_dvd (Nat.sub_le ..)
      have hle := Nat.le_of_dvd (twoPow_pos _) hdvd
      omega
  have hfloor : q / twoPow (spacingLog q) * twoPow (spacingLog q) ≤ q := Nat.div_mul_le_self ..
  calc roundHalfEven num (den * twoPow (spacingLog q)) * twoPow (spacingLog q)
      ≤ (q / twoPow (spacingLog q) + 1) * twoPow (spacingLog q) := Nat.mul_le_mul_right _ hround
    _ = q / twoPow (spacingLog q) * twoPow (spacingLog q) + twoPow (spacingLog q) := Nat.succ_mul ..
    _ ≤ 2 * q + 1 := by omega

/-- Far below the limit nothing is too large. -/
theorem exists_nearest? {num den : Nat} (h : num / den < twoPow 2097) : ∃ m, nearest? num den = some m := by
  have hrounded : rounded num den < unitsLimit := by
    have hle := rounded_le num den
    have hdouble : twoPow 2098 = twoPow 1 * twoPow 2097 := twoPow_add 1 2097
    rw [unitsLimit, hdouble, show twoPow 1 = 2 from rfl]
    generalize twoPow 2097 = limit at h ⊢
    omega
  unfold nearest?
  exact ⟨_, dif_pos hrounded⟩

end Magnitude

/-! ## Decimals -/

namespace Decimal

/-- What stands above the line when a decimal is written as a quotient. -/
def numerator (d : Decimal) : Nat := d.digits * tenPow d.exponent.toNat

/-- What stands below it. -/
def denominator (d : Decimal) : Nat := tenPow (-d.exponent).toNat

theorem nearest?_eq_quotient (d : Decimal) :
    d.nearest? = Magnitude.nearest? (d.numerator * Magnitude.unitsPerOne) d.denominator := by
  obtain ⟨n, e⟩ := d
  unfold nearest? numerator denominator
  generalize Magnitude.unitsPerOne = u
  cases e with
  | ofNat e =>
    have hneg : (-Int.ofNat e).toNat = 0 := by
      rw [Int.ofNat_eq_natCast]
      omega
    rw [hneg]
    rfl
  | negSucc e =>
    have hpos : (Int.negSucc e).toNat = 0 := rfl
    rw [hpos, show tenPow 0 = 1 from rfl, Nat.mul_one]
    rfl

/-- The same number with `k` digits more and the exponent as much smaller. -/
theorem nearest?_shift (n : Nat) (e : Int) (k : Nat) :
    nearest? ⟨n * tenPow k, e⟩ = nearest? ⟨n, e + k⟩ := by
  rw [nearest?_eq_quotient, nearest?_eq_quotient]
  refine Magnitude.nearest?_congr (tenPow_pos _) (tenPow_pos _) ?_
  unfold numerator denominator
  generalize Magnitude.unitsPerOne = u
  have hexp : k + e.toNat + (-(e + k)).toNat = (e + k).toNat + (-e).toNat := by omega
  have hpow : tenPow k * tenPow e.toNat * tenPow (-(e + k)).toNat
      = tenPow (e + k).toNat * tenPow (-e).toNat := by
    rw [← tenPow_add, ← tenPow_add, ← tenPow_add, hexp]
  calc n * tenPow k * tenPow e.toNat * u * tenPow (-(e + k)).toNat
      = n * (tenPow k * tenPow e.toNat * tenPow (-(e + k)).toNat) * u := by ac_rfl
    _ = n * tenPow (e + k).toNat * u * tenPow (-e).toNat := by rw [hpow]; ac_rfl

end Decimal

end Watermark
