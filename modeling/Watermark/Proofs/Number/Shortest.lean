import Watermark.Proofs.Number.Rounding

/-!
# The shortest decimal reads back

`Magnitude.shortest` searches the grids of multiples of powers of ten from coarse to fine. Whatever a grid gives
has been tried (`readsBack_of_onGrid?`), and the exact decimal needs no trial, so the decimal that is found is read
as the magnitude again (`nearest?_shortest`).
-/

namespace Watermark

theorem twoPow_mul_fivePow (e : Nat) : twoPow e * Nat.pow 5 e = tenPow e := (Nat.mul_pow 2 5 e).symm

theorem fivePow_pos (e : Nat) : 0 < Nat.pow 5 e := Nat.pow_pos (by decide)

/-- What is taken will do. -/
theorem Tie.eq_of_pick {tie : Tie} {below c : Nat} {lower upper : Bool} {side : Ordering}
    (h : tie.pick below lower upper side = some c) :
    (c = below ∧ lower = true) ∨ (c = below + 1 ∧ upper = true) := by
  unfold pick at h
  split at h
  · cases h
  · exact .inl ⟨(Option.some.inj h).symm, rfl⟩
  · exact .inr ⟨(Option.some.inj h).symm, rfl⟩
  · have hor : c = below ∨ c = below + 1 := by
      split at h
      · exact .inl (Option.some.inj h).symm
      · exact .inr (Option.some.inj h).symm
      · split at h
        · exact .inr (Option.some.inj h).symm
        · have := Option.some.inj h
          omega
    exact hor.imp (⟨·, rfl⟩) (⟨·, rfl⟩)

namespace Magnitude

theorem stepsPerUnit_pos : 0 < stepsPerUnit := by
  unfold stepsPerUnit
  exact fivePow_pos _

/-- Both factors of ten, one in the unit and one in the step. -/
theorem unitsPerOne_mul_stepsPerUnit : unitsPerOne * stepsPerUnit = tenPow exactPlaces := by
  unfold unitsPerOne stepsPerUnit exactPlaces
  generalize 1074 = e
  exact twoPow_mul_fivePow e

/-- A point of a grid is taken only if it reads back. -/
theorem readsBack_of_onGrid? {tie : Tie} {m : Magnitude} {p c : Nat} (h : m.onGrid? tie p = some c) :
    m.readsBack (c * tenPow p) = true := by
  unfold onGrid? at h
  obtain ⟨rfl, hr⟩ | ⟨rfl, hr⟩ := Tie.eq_of_pick h
  · exact hr
  · exact hr

/-- Steps of 10⁻¹⁰⁷⁴ as a decimal. -/
theorem nearest?_steps (steps : Nat) :
    Decimal.nearest? ⟨steps, -exactPlaces⟩ = nearest? steps stepsPerUnit := by
  have hpos : (-(exactPlaces : Int)).toNat = 0 := by omega
  have hneg : (- -(exactPlaces : Int)).toNat = exactPlaces := by omega
  have hten := unitsPerOne_mul_stepsPerUnit
  have hsteps := stepsPerUnit_pos
  rw [Decimal.nearest?_eq_quotient]
  unfold Decimal.numerator Decimal.denominator
  rw [hpos, hneg, show tenPow 0 = 1 from rfl, Nat.mul_one]
  generalize stepsPerUnit = u at hten hsteps ⊢
  refine nearest?_congr (tenPow_pos _) hsteps ?_
  rw [Nat.mul_assoc, hten]

theorem nearest?_of_readsBack {m : Magnitude} {c p : Nat} (h : m.readsBack (c * tenPow p) = true) :
    Decimal.nearest? ⟨c, p - exactPlaces⟩ = some m := by
  rw [Int.sub_eq_add_neg, Int.add_comm, ← Decimal.nearest?_shift, nearest?_steps]
  exact of_decide_eq_true h

theorem nearest?_exact (m : Magnitude) : m.exact.nearest? = some m := by
  rw [exact, nearest?_steps, exactSteps]
  exact nearest?_units m stepsPerUnit_pos

/-- The decimal of the fewest digits is read as the magnitude again. -/
theorem nearest?_shortest (tie : Tie) (m : Magnitude) : (m.shortest tie).nearest? = some m := by
  unfold shortest
  dsimp only
  generalize hf : List.findSome? _ (List.range 17) = found
  cases found with
  | none => exact nearest?_exact m
  | some d =>
    obtain ⟨n, -, hn⟩ := List.exists_of_findSome?_eq_some hf
    obtain ⟨c, hc, rfl⟩ := Option.map_eq_some_iff.1 hn
    exact nearest?_of_readsBack (readsBack_of_onGrid? hc)

/-- A decimal without digits is zero. -/
theorem nearest?_zero_digits (e : Int) : Decimal.nearest? ⟨0, e⟩ = some zero := by
  have h := nearest?_units zero (tenPow_pos (-e).toNat)
  rw [show zero.units = 0 from rfl, Nat.zero_mul] at h
  rw [Decimal.nearest?_eq_quotient, Decimal.numerator, Nat.zero_mul, Nat.zero_mul]
  exact h

/-- Above zero there are digits. -/
theorem digits_shortest (tie : Tie) {m : Magnitude} (h : m.units ≠ 0) : (m.shortest tie).digits ≠ 0 := by
  intro hzero
  have hread := nearest?_shortest tie m
  generalize m.shortest tie = d at hzero hread
  obtain ⟨n, e⟩ := d
  cases hzero
  rw [nearest?_zero_digits] at hread
  cases hread
  exact h rfl

end Magnitude

end Watermark
