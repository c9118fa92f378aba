import Mathlib.Data.Nat.Log
import Watermark.Proofs.Number.Order

/-!
# Bounds on what is rounded

Rounding passes no representable number: a quotient that is not above one is rounded to nothing above it
(`Magnitude.rounded_le_of_le`), and a quotient that is not below one to nothing below it (`Magnitude.le_rounded`). The
spacing at the quotient is what counts. A representable number that is not below the quotient is a multiple of that
spacing. One below it need not be, but then the power of two at the quotient is, and lies between the two.

So a quotient between two magnitudes is rounded to a magnitude between them (`Magnitude.exists_nearest?_le`,
`Magnitude.le_nearest?`), and a difference never vanishes in rounding: it is above 0 exactly if its first number is the
greater one (`Binary64.isPositive_sub`).
-/

namespace Watermark

namespace Magnitude

/-! ## Rounding to whole numbers -/

variable {num den : Nat}

theorem le_roundHalfEven {j : Nat} (hd : 0 < den) (h : j * den ≤ num) : j ≤ roundHalfEven num den := by
  have hfloor : j ≤ num / den := (Nat.le_div_iff_mul_le hd).2 h
  unfold roundHalfEven
  dsimp only
  split <;> omega

theorem roundHalfEven_le {j : Nat} (hd : 0 < den) (h : num ≤ j * den) : roundHalfEven num den ≤ j := by
  by_cases hlt : num / den < j
  · exact Nat.le_trans (roundHalfEven_le_succ num den) hlt
  · -- the quotient is `j` itself, and nothing is left over
    have hge : j * den ≤ num := (Nat.le_div_iff_mul_le hd).1 (Nat.not_lt.1 hlt)
    rw [Nat.le_antisymm h hge, roundHalfEven_mul_self j hd]

/-! ## Rounding to representable numbers -/

theorem spacingLog_mono {q m : Nat} (h : q ≤ m) : spacingLog q ≤ spacingLog m := by
  rw [spacingLog, spacingLog, Nat.log2_eq_log_two, Nat.log2_eq_log_two]
  exact Nat.sub_le_sub_right (Nat.log_mono_right h) 52

theorem rounded_le_of_le {m : Nat} (hm : Representable m) (hd : 0 < den) (h : num ≤ m * den) :
    rounded num den ≤ m := by
  have hq : num / den ≤ m := Nat.div_le_of_le_mul (Nat.mul_comm m den ▸ h)
  obtain ⟨j, hj⟩ := Nat.dvd_trans (twoPow_dvd (spacingLog_mono hq)) hm.2
  have hpos := twoPow_pos (spacingLog (num / den))
  unfold rounded
  generalize twoPow (spacingLog (num / den)) = spacing at hj hpos ⊢
  have hround : roundHalfEven num (den * spacing) ≤ j := by
    refine roundHalfEven_le (Nat.mul_pos hd hpos) (Nat.le_trans h (Nat.le_of_eq ?_))
    rw [hj]
    ac_rfl
  calc roundHalfEven num (den * spacing) * spacing
      ≤ j * spacing := Nat.mul_le_mul_right spacing hround
    _ = m := by rw [hj, Nat.mul_comm]

/-- Where the number is a multiple of the spacing at the quotient. -/
theorem le_rounded_of_dvd {m : Nat} (hdvd : twoPow (spacingLog (num / den)) ∣ m) (hd : 0 < den)
    (h : m * den ≤ num) : m ≤ rounded num den := by
  obtain ⟨j, hj⟩ := hdvd
  have hpos := twoPow_pos (spacingLog (num / den))
  unfold rounded
  generalize twoPow (spacingLog (num / den)) = spacing at hj hpos ⊢
  have hround : j ≤ roundHalfEven num (den * spacing) := by
    refine le_roundHalfEven (Nat.mul_pos hd hpos) (Nat.le_trans (Nat.le_of_eq ?_) h)
    rw [hj]
    ac_rfl
  calc m = j * spacing := by rw [hj, Nat.mul_comm]
    _ ≤ roundHalfEven num (den * spacing) * spacing := Nat.mul_le_mul_right spacing hround

/-- A representable number is a multiple of the spacing at a quotient, or a power of two that is one lies between them. -/
theorem dvd_or_power_between (num : Nat) {m : Nat} (hm : Representable m) (hd : 0 < den) :
    twoPow (spacingLog (num / den)) ∣ m
      ∨ ∃ p, twoPow (spacingLog (num / den)) ∣ p ∧ m < p ∧ p * den ≤ num := by
  by_cases hspacing : spacingLog (num / den) ≤ spacingLog m
  · exact .inl (Nat.dvd_trans (twoPow_dvd hspacing) hm.2)
  · have hlog : m.log2 < (num / den).log2 := by
      unfold spacingLog at hspacing
      omega
    have hne : num / den ≠ 0 := by
      intro h0
      rw [h0] at hlog
      exact absurd hlog (Nat.not_lt_zero _)
    have hpower : twoPow (num / den).log2 * den ≤ num :=
      (Nat.le_div_iff_mul_le hd).1 (Nat.log2_self_le hne)
    refine .inr ⟨twoPow (num / den).log2, twoPow_dvd (Nat.sub_le ..), ?_, hpower⟩
    by_cases h0 : m = 0
    · exact h0 ▸ twoPow_pos _
    · exact (log2_lt_iff h0).1 hlog

theorem le_rounded {m : Nat} (hm : Representable m) (hd : 0 < den) (h : m * den ≤ num) : m ≤ rounded num den := by
  rcases dvd_or_power_between num hm hd with hdvd | ⟨p, hdvd, hlt, hp⟩
  · exact le_rounded_of_dvd hdvd hd h
  · exact Nat.le_trans (Nat.le_of_lt hlt) (le_rounded_of_dvd hdvd hd hp)

theorem exists_of_representable {n : Nat} (h : Representable n) : ∃ m : Magnitude, m.units = n := ⟨⟨n, h⟩, rfl⟩

theorem representable_one : Representable unitsPerOne := by
  have hlt : twoPow 1074 < unitsLimit := by
    unfold unitsLimit
    exact twoPow_lt (by decide)
  have h := representable_mul (k := 1) (e := 1074) (twoPow_pos 53)
  rw [Nat.one_mul] at h
  exact h hlt

theorem exists_nearest?_le {m : Magnitude} (hd : 0 < den) (h : num ≤ m.units * den) :
    ∃ n, nearest? num den = some n ∧ n.units ≤ m.units := by
  have hle := rounded_le_of_le m.representable hd h
  have hlt : rounded num den < unitsLimit := Nat.lt_of_le_of_lt hle m.representable.1
  have hsome : ∃ n, nearest? num den = some n := by
    unfold nearest?
    exact ⟨_, dif_pos hlt⟩
  obtain ⟨n, hn⟩ := hsome
  exact ⟨n, hn, nearest?_eq_some_iff.1 hn ▸ hle⟩

theorem le_nearest? {m n : Magnitude} (hn : nearest? num den = some n) (hd : 0 < den) (h : m.units * den ≤ num) :
    m.units ≤ n.units :=
  nearest?_eq_some_iff.1 hn ▸ le_rounded m.representable hd h

/-- A unit or more is not rounded to zero. -/
theorem units_pos_of_nearest? {n : Magnitude} (hn : nearest? num den = some n) (hd : 0 < den) (h : den ≤ num) :
    0 < n.units :=
  le_nearest? (m := ⟨1, representable_of_lt (Nat.one_lt_two_pow (by decide))⟩) hn hd (by rwa [Nat.one_mul])

end Magnitude

/-! ## Differences -/

namespace Binary64

variable {x y : Binary64}

theorem lt_eq_of_place {p q : Int} (hx : x.place = some p) (hy : y.place = some q) : x.lt y = decide (p < q) := by
  rw [lt, related, hx, hy]

theorem isPositive_eq_of_place {p : Int} (hx : x.place = some p) : x.isPositive = decide (0 < p) :=
  lt_eq_of_place rfl hx

theorem isPositive_iff : x.isPositive = true ↔ ∃ p : Int, x.place = some p ∧ 0 < p := by
  unfold isPositive lt related
  cases x.place <;> simp [place, zero, Magnitude.zero]

theorem zero_le_iff : zero.le x = true ↔ ∃ p : Int, x.place = some p ∧ 0 ≤ p := by
  unfold le related
  cases x.place <;> simp [place, zero, Magnitude.zero]

theorem lt_nan (x : Binary64) : x.lt .nan = false := by
  rw [Bool.eq_false_iff]
  exact fun h => (ne_nan_of_le (le_of_lt h)).2 rfl

theorem not_lt_iff_le (hx : x ≠ .nan) (hy : y ≠ .nan) : ¬ y.lt x = true ↔ x.le y = true :=
  ⟨fun h => le_of_not_lt hx hy (Bool.eq_false_iff.2 h), fun h => Bool.eq_false_iff.1 (not_lt_of_le h)⟩

theorem isPositive_infinite (negative : Bool) : (infinite negative).isPositive = !negative := by
  have hlimit : 0 < unitsLimit := twoPow_pos _
  cases negative with
  | false => exact (isPositive_eq_of_place rfl).trans (decide_eq_true (by omega))
  | true => exact (isPositive_eq_of_place rfl).trans (decide_eq_false (by omega))

theorem lt_infinite (hx : x.isFinite = true) (negative : Bool) : x.lt (.infinite negative) = !negative := by
  obtain ⟨p, hp, hlow, hhigh⟩ := isFinite_iff_place.1 hx
  cases negative with
  | false => exact (lt_eq_of_place hp rfl).trans (decide_eq_true hhigh)
  | true => exact (lt_eq_of_place hp rfl).trans (decide_eq_false (by omega))

theorem infinite_lt (hx : x.isFinite = true) (negative : Bool) : (infinite negative).lt x = negative := by
  obtain ⟨p, hp, hlow, hhigh⟩ := isFinite_iff_place.1 hx
  cases negative with
  | false => exact (lt_eq_of_place rfl hp).trans (decide_eq_false (by omega))
  | true => exact (lt_eq_of_place rfl hp).trans (decide_eq_true hlow)

theorem infinite_lt_infinite (t : Bool) : (infinite t).lt (.infinite (!t)) = !!t := by
  have hlimit : 0 < unitsLimit := twoPow_pos _
  cases t with
  | false => exact (lt_eq_of_place rfl rfl).trans (decide_eq_false (by omega))
  | true => exact (lt_eq_of_place rfl rfl).trans (decide_eq_true (by omega))

theorem ofUnits_of_nearest? {num den : Nat} {m : Magnitude} (h : Magnitude.nearest? num den = some m)
    (negative : Bool) : ofUnits negative num den = .finite negative m := by
  unfold ofUnits
  split
  · rename_i n hn
    rw [Option.some.inj (h.symm.trans hn)]
  · rename_i hnone
    cases h.symm.trans hnone

/-- So many units are not rounded to zero. -/
theorem isPositive_ofUnits {n : Nat} (hn : 0 < n) (negative : Bool) :
    (ofUnits negative n 1).isPositive = !negative := by
  unfold ofUnits
  split
  · rename_i m hm
    have hpos := Magnitude.units_pos_of_nearest? hm Nat.one_pos hn
    cases negative with
    | false => exact (isPositive_eq_of_place rfl).trans (decide_eq_true (by omega))
    | true => exact (isPositive_eq_of_place rfl).trans (decide_eq_false (by omega))
  · exact isPositive_infinite negative

theorem place_one : one.place = some (Magnitude.unitsPerOne : Int) := by
  obtain ⟨m, hm⟩ := Magnitude.exists_of_representable Magnitude.representable_one
  have hread := ofUnits_of_nearest? (Magnitude.nearest?_units m Nat.one_pos) false
  have hone : one = .finite false m := by
    rw [one, ratio, Nat.one_mul Magnitude.unitsPerOne, ← hm, ← Nat.mul_one m.units]
    exact hread
  have hplace : (finite false m).place = some (m.units : Int) := rfl
  rw [hone, hplace, hm]

theorem isPositive_orZero (x : Binary64) : x.orZero.isPositive = x.isPositive := by
  unfold orZero
  split
  · rfl
  · rename_i h
    rw [isPositive_zero, Bool.eq_false_iff.2 h]

theorem isPositive_sub_of_finite (hx : x.isFinite = true) (hy : y.isFinite = true) :
    (x.sub y).isPositive = y.lt x := by
  obtain ⟨p, hp⟩ := exists_place (ne_nan_of_isFinite hx)
  obtain ⟨q, hq⟩ := exists_place (ne_nan_of_isFinite hy)
  rw [← isPositive_orZero, orZero_sub hx hy hp hq, lt_eq_of_place hq hp]
  split
  · rename_i h
    exact isPositive_zero.trans (decide_eq_false (by omega)).symm
  · rename_i h
    rw [isPositive_orZero, isPositive_ofUnits (Int.natAbs_pos.2 h), ← decide_not, decide_eq_decide]
    omega

/-- A difference is above 0 exactly if its first number is the greater one. -/
theorem isPositive_sub (x y : Binary64) : (x.sub y).isPositive = y.lt x := by
  cases x with
  | nan => exact (lt_nan y).symm
  | infinite s =>
    cases y with
    | nan => rfl
    | infinite t =>
      rw [sub]
      split
      · rename_i h
        have hself : (infinite t).lt (.infinite t) = false := not_lt_of_le (le_refl (by simp))
        rw [h, hself]
        rfl
      · rename_i h
        rw [isPositive_infinite, Bool.eq_not_of_ne h, infinite_lt_infinite]
    | finite t b => exact (isPositive_infinite s).trans (lt_infinite rfl s).symm
  | finite s a =>
    cases y with
    | nan => rfl
    | infinite t =>
      rw [infinite_lt rfl t, sub, isPositive_infinite, Bool.not_not]
    | finite t b => exact isPositive_sub_of_finite rfl rfl

theorem zero_le_orZero (x : Binary64) : zero.le x.orZero = true := by
  rcases x.orZero_positive with h | h
  · exact le_of_lt h
  · rw [h]
    exact le_refl (ne_nan_of_isFinite rfl)

theorem isFinite_orZero (h : x.isFinite = true) : x.orZero.isFinite = true := by
  unfold orZero
  split
  · exact h
  · rfl

/-- A number less one from 0 on is not above itself, so it stays finite. -/
theorem isFinite_orZero_sub (hx : x.isFinite = true) (hy : y.isFinite = true) (hzero : zero.le y = true) :
    (x.sub y).orZero.isFinite = true := by
  by_cases hlt : y.lt x = true
  · obtain ⟨q, p, hq, hp, hqp⟩ := lt_iff.1 hlt
    obtain ⟨q', hq', hnonneg⟩ := zero_le_iff.1 hzero
    cases hq.symm.trans hq'
    obtain ⟨s, m, rfl⟩ := exists_finite hx
    have hunits : p ≤ m.units := by
      cases s with
      | false => exact Int.le_of_eq (Option.some.inj hp).symm
      | true =>
        have hneg : -(m.units : Int) = p := Option.some.inj hp
        omega
    have hdiff : (p - q).natAbs ≤ m.units * 1 := by omega
    obtain ⟨n, hn, -⟩ := Magnitude.exists_nearest?_le Nat.one_pos hdiff
    have hne : p - q ≠ 0 := by omega
    rw [orZero_sub hx hy hp hq, if_neg hne, ofUnits_of_nearest? hn]
    exact isFinite_orZero rfl
  · rw [orZero, isPositive_sub, if_neg hlt]
    rfl

end Binary64

end Watermark
