import Watermark.Proofs.Number.Numeral

/-!
# The order of numbers

Numbers are compared by their places (`Binary64.le_iff`, `Binary64.lt_iff`), so all that is compared is a number
(`Binary64.ne_nan_of_le`), what lies between finite numbers is finite (`Binary64.isFinite_of_between`), and the same
number compares alike (`Binary64.le_congr`). Clamping leads between the bounds (`Binary64.clamp_between`) and leaves
alone what is there (`Binary64.clamp_eq_self`).

A difference that counts from zero on depends on the two places only (`Binary64.orZero_sub_congr`).
-/

namespace Watermark.Binary64

variable {x y z : Binary64}

/-! ## Places -/

theorem exists_place (h : x ≠ .nan) : ∃ p, x.place = some p :=
  Option.ne_none_iff_exists'.1 (same_iff_place.1 (same_self h)).2

theorem exists_finite (h : x.isFinite = true) : ∃ s m, x = .finite s m := by
  cases x with
  | nan => cases h
  | infinite s => cases h
  | finite s m => exact ⟨s, m, rfl⟩

/-- Finite numbers, and no others, stand within the limits. -/
theorem isFinite_iff_place : x.isFinite = true ↔ ∃ p : Int, x.place = some p ∧ -unitsLimit < p ∧ p < unitsLimit := by
  have hlimit : 0 < unitsLimit := twoPow_pos _
  cases x with
  | nan => simp only [isFinite, place, reduceCtorEq, false_and, exists_false]
  | infinite s =>
    cases s <;> simp only [isFinite, place, Option.some.injEq, exists_eq_left', Bool.false_eq_true, false_iff] <;> omega
  | finite s m =>
    have hm := m.representable.1
    cases s <;> simp only [isFinite, place, Option.some.injEq, exists_eq_left', true_iff] <;> omega

theorem le_iff : x.le y = true ↔ ∃ p q : Int, x.place = some p ∧ y.place = some q ∧ p ≤ q := by
  unfold le related
  cases x.place <;> cases y.place <;> simp

theorem lt_iff : x.lt y = true ↔ ∃ p q : Int, x.place = some p ∧ y.place = some q ∧ p < q := by
  unfold lt related
  cases x.place <;> cases y.place <;> simp

theorem ne_nan_of_le (h : x.le y = true) : x ≠ .nan ∧ y ≠ .nan := by
  obtain ⟨p, q, hp, hq, -⟩ := le_iff.1 h
  constructor
  · rintro rfl
    cases hp
  · rintro rfl
    cases hq

theorem le_refl (h : x ≠ .nan) : x.le x = true := by
  obtain ⟨p, hp⟩ := exists_place h
  exact le_iff.2 ⟨p, p, hp, hp, Int.le_refl p⟩

theorem not_lt_of_le (h : x.le y = true) : y.lt x = false := by
  obtain ⟨p, q, hp, hq, hle⟩ := le_iff.1 h
  rw [Bool.eq_false_iff]
  intro hlt
  obtain ⟨q', p', hq', hp', hlt⟩ := lt_iff.1 hlt
  cases hp.symm.trans hp'
  cases hq.symm.trans hq'
  omega

theorem le_of_not_lt (hx : x ≠ .nan) (hy : y ≠ .nan) (h : y.lt x = false) : x.le y = true := by
  obtain ⟨p, hp⟩ := exists_place hx
  obtain ⟨q, hq⟩ := exists_place hy
  refine le_iff.2 ⟨p, q, hp, hq, Int.not_lt.1 fun hlt => ?_⟩
  rw [lt_iff.2 ⟨q, p, hq, hp, hlt⟩] at h
  cases h

theorem le_of_lt (h : x.lt y = true) : x.le y = true := by
  obtain ⟨p, q, hp, hq, hlt⟩ := lt_iff.1 h
  exact le_iff.2 ⟨p, q, hp, hq, Int.le_of_lt hlt⟩

theorem isFinite_of_between (hx : x.isFinite = true) (hz : z.isFinite = true) (hxy : x.le y = true)
    (hyz : y.le z = true) : y.isFinite = true := by
  obtain ⟨p, hp, hlow, -⟩ := isFinite_iff_place.1 hx
  obtain ⟨r, hr, -, hhigh⟩ := isFinite_iff_place.1 hz
  obtain ⟨p', q, hp', hq, hpq⟩ := le_iff.1 hxy
  obtain ⟨q', r', hq', hr', hqr⟩ := le_iff.1 hyz
  cases hp.symm.trans hp'
  cases hq.symm.trans hq'
  cases hr.symm.trans hr'
  exact isFinite_iff_place.2 ⟨q, hq, by omega, by omega⟩

/-! ## The same number -/

theorem le_congr {x' y' : Binary64} (hx : x.same x' = true) (hy : y.same y' = true) : x.le y = x'.le y' := by
  unfold le related
  rw [(same_iff_place.1 hx).1, (same_iff_place.1 hy).1]

theorem isPositive_congr (h : x.same y = true) : x.isPositive = y.isPositive := by
  unfold isPositive lt related
  rw [(same_iff_place.1 h).1]

theorem isFinite_congr (h : x.same y = true) : x.isFinite = y.isFinite := by
  rw [Bool.eq_iff_iff, isFinite_iff_place, isFinite_iff_place, (same_iff_place.1 h).1]

/-! ## From zero on -/

theorem isPositive_zero : zero.isPositive = false := by
  decide

theorem ne_nan_of_isFinite (h : x.isFinite = true) : x ≠ .nan := by
  rintro rfl
  cases h

theorem ne_nan_of_isPositive (h : x.isPositive = true) : x ≠ .nan := (ne_nan_of_le (le_of_lt h)).2

theorem orZero_positive (x : Binary64) : x.orZero.isPositive = true ∨ x.orZero = zero := by
  unfold orZero
  split
  · exact .inl ‹_›
  · exact .inr rfl

theorem orZero_of_same_zero (h : x.same zero = true) : x.orZero = zero := by
  rw [orZero, isPositive_congr h, isPositive_zero]
  rfl

/-- A number from zero on is kept, but for the sign of zero. -/
theorem same_orZero (h : zero.le x = true) : x.orZero.same x = true := by
  have hx := (ne_nan_of_le h).2
  unfold orZero
  split
  · exact same_self hx
  · rename_i hpos
    obtain ⟨p, q, hp, hq, hle⟩ := le_iff.1 h
    rw [same_iff_place]
    refine ⟨?_, nofun⟩
    have hnot : ¬ p < q := fun hlt => hpos (lt_iff.2 ⟨p, q, hp, hq, hlt⟩)
    rw [hp, hq, Int.le_antisymm hle (Int.not_lt.1 hnot)]

/-! ## Clamping -/

theorem clamp_between {low high : Binary64} (hle : low.le high = true) (hx : x ≠ .nan) :
    low.le (clamp low high x) = true ∧ (clamp low high x).le high = true := by
  obtain ⟨hlow, hhigh⟩ := ne_nan_of_le hle
  unfold clamp
  split
  · exact ⟨le_refl hlow, hle⟩
  · rename_i hxlow
    split
    · exact ⟨hle, le_refl hhigh⟩
    · rename_i hxhigh
      exact ⟨le_of_not_lt hlow hx (Bool.eq_false_iff.2 hxlow), le_of_not_lt hx hhigh (Bool.eq_false_iff.2 hxhigh)⟩

theorem clamp_eq_self {low high : Binary64} (hlow : low.le x = true) (hhigh : x.le high = true) :
    clamp low high x = x := by
  rw [clamp, not_lt_of_le hlow, not_lt_of_le hhigh]
  rfl

/-! ## Differences -/

/-- A difference of finite numbers, counted from zero on, is made from the difference of their places. -/
theorem orZero_sub {p q : Int} (hx : x.isFinite = true) (hy : y.isFinite = true) (hp : x.place = some p)
    (hq : y.place = some q) :
    (x.sub y).orZero = if p - q = 0 then zero else (ofUnits (decide (p - q < 0)) (p - q).natAbs 1).orZero := by
  obtain ⟨s, m, rfl⟩ := exists_finite hx
  obtain ⟨t, n, rfl⟩ := exists_finite hy
  have hunits : ∀ (s : Bool) (m : Magnitude) (p : Int), (finite s m).place = some p →
      (if s then -m.units else m.units : Int) = p := by
    intro s m p h
    cases s <;> exact Option.some.inj h
  simp only [sub, hunits s m p hp, hunits t n q hq]
  split
  · exact orZero_of_same_zero (same_zero_iff.2 rfl)
  · rfl

theorem orZero_sub_congr {x' y' : Binary64} (hx : x.isFinite = true) (hy : y.isFinite = true)
    (hxx : x.same x' = true) (hyy : y.same y' = true) : (x.sub y).orZero = (x'.sub y').orZero := by
  obtain ⟨p, hp⟩ := exists_place (ne_nan_of_isFinite hx)
  obtain ⟨q, hq⟩ := exists_place (ne_nan_of_isFinite hy)
  have hp' : x'.place = some p := (same_iff_place.1 hxx).1.symm.trans hp
  have hq' : y'.place = some q := (same_iff_place.1 hyy).1.symm.trans hq
  rw [orZero_sub hx hy hp hq, orZero_sub (isFinite_congr hxx ▸ hx) (isFinite_congr hyy ▸ hy) hp' hq']

end Watermark.Binary64
