import Watermark.Proofs.Number.Nearest

/-!
# Printed numbers read back as themselves

A numeral denotes a rational number (`Decimal.denoted`), and the number that was printed is the one nearest to it, since
the shortest digits are tried before they are taken (`Binary64.exists_sign_digits`).

The numeral of a whole number has no point (`Magnitude.point_mem_iff`). The grid of the whole numbers is one of those
that are searched, and the number itself is on it, so the search does not go on to a finer one
(`Magnitude.length_significant_le`). The other way round, a numeral without a point is read as a whole number, because a
spacing is a part or a multiple of 1 (`Magnitude.unitsPerOne_dvd_rounded`).
-/

namespace Watermark

namespace Decimal

/-! ## Zeros at the end -/

theorem zeros_succ (k : Nat) : zeros (k + 1) = zeros k ++ ['0'] := List.replicate_succ'

theorem ofNat_mul_tenPow {n : Nat} (hn : n ≠ 0) (k : Nat) : Text.ofNat (n * tenPow k) = Text.ofNat n ++ zeros k := by
  induction k with
  | zero =>
    rw [show tenPow 0 = 1 from rfl, Nat.mul_one]
    exact (List.append_nil _).symm
  | succ k ih =>
    have hpos : 0 < n * tenPow k := Nat.mul_pos (Nat.pos_of_ne_zero hn) (tenPow_pos k)
    have hdigit : Text.ofNat (n * tenPow k) ++ Text.ofNat 0 = Text.ofNat (10 * (n * tenPow k) + 0) :=
      Nat.toDigits_append_toDigits (by decide) hpos (by decide)
    have hnext : n * tenPow (k + 1) = 10 * (n * tenPow k) + 0 := by
      rw [tenPow_add, show tenPow 1 = 10 from rfl]
      ring
    rw [hnext, ← hdigit, ih, zeros_succ, List.append_assoc]
    rfl

theorem length_significant_le (d : Decimal) : d.significant.length ≤ (Text.ofNat d.digits).length := by
  obtain ⟨k, hk⟩ := d.exists_zeros
  rw [← hk, List.length_append]
  exact Nat.le_add_right _ _

/-- No point where the digits end before it. -/
theorem point_not_mem_positional {d : Decimal} (hd : d.digits ≠ 0) (h : (d.significant.length : Int) ≤ d.pointAt) :
    '.' ∉ d.positional [] := by
  have hpos := List.length_pos_iff.2 (significant_ne_nil hd)
  have hsignificant : '.' ∉ d.significant := point_not_mem fun _ => isDigit_of_mem_significant
  have hzeros : ∀ k, '.' ∉ zeros k := fun _ => point_not_mem fun _ => isDigit_of_mem_zeros
  unfold positional
  dsimp only
  rw [if_neg (by omega), if_pos (by omega)]
  simp [hsignificant, hzeros]

end Decimal

namespace Magnitude

variable {m : Magnitude} {tie : Tie}

/-! ## Whole numbers -/

theorem exactSteps_of_whole {j : Nat} (hj : m.units = unitsPerOne * j) : m.exactSteps = j * tenPow exactPlaces := by
  rw [exactSteps, hj, ← unitsPerOne_mul_stepsPerUnit, Nat.mul_comm unitsPerOne j, Nat.mul_assoc]

/-- The first grid with a hit decides, and where none has one, the exact decimal is taken. -/
theorem shortest_cases (tie : Tie) (m : Magnitude) :
    let last := (Text.ofNat m.exactSteps).length - 1
    m.shortest tie = m.exact
      ∨ ∃ n c, m.shortest tie = ⟨c, (last - n : Nat) - exactPlaces⟩ ∧ ∀ k < n, m.onGrid? tie (last - k) = none := by
  intro last
  unfold shortest
  dsimp only
  generalize hf : List.findSome? _ (List.range 17) = found
  cases found with
  | none => exact .inl rfl
  | some d =>
    obtain ⟨before, n, after, hrange, hn, hnone⟩ := List.findSome?_eq_some_iff.1 hf
    obtain ⟨c, -, rfl⟩ := Option.map_eq_some_iff.1 hn
    refine .inr ⟨n, c, rfl, fun k hk => ?_⟩
    have hsorted := List.pairwise_lt_range (n := 17)
    rw [hrange] at hsorted
    have hmem : k ∈ before ++ n :: after := by
      have hn17 : n ∈ List.range 17 := hrange ▸ List.mem_append_right _ List.mem_cons_self
      rw [List.mem_range] at hn17
      rw [← hrange, List.mem_range]
      omega
    have hk' : k ∈ before := by
      rcases List.mem_append.1 hmem with h | h
      · exact h
      rcases List.mem_cons.1 h with rfl | h
      · exact absurd hk (Nat.lt_irrefl _)
      · have := List.rel_of_pairwise_cons (List.pairwise_append.1 hsorted).2.1 h
        omega
    exact Option.map_eq_none_iff.1 (hnone k hk')

/-- A magnitude on a grid is found there. -/
theorem onGrid?_of_eq {j p : Nat} (h : m.exactSteps = j * tenPow p) : m.onGrid? tie p = some j := by
  have hpos := tenPow_pos p
  have hread : m.readsBack (j * tenPow p) = true := by
    rw [← h, readsBack, exactSteps]
    exact decide_eq_true (nearest?_units m stepsPerUnit_pos)
  have hside : compare (2 * 0) (tenPow p) = .lt := by
    rw [Nat.mul_zero]
    exact Nat.compare_eq_lt.2 hpos
  unfold onGrid?
  dsimp only
  rw [h, Nat.mul_div_cancel _ hpos, Nat.mul_mod_left, hread, hside]
  unfold Tie.pick
  cases m.readsBack ((j + 1) * tenPow p) <;> rfl

theorem length_significant_le (hm : m.units ≠ 0) (h : unitsPerOne ∣ m.units) :
    ((m.shortest tie).significant.length : Int) ≤ (m.shortest tie).pointAt := by
  obtain ⟨j, hj⟩ := h
  have hj0 : j ≠ 0 := by
    rintro rfl
    exact hm (hj.trans (Nat.mul_zero _))
  have hdigits : Text.ofNat m.exactSteps = Text.ofNat j ++ Decimal.zeros exactPlaces := by
    rw [exactSteps_of_whole hj, Decimal.ofNat_mul_tenPow hj0]
  have hlength : (Text.ofNat m.exactSteps).length = (Text.ofNat j).length + exactPlaces := by
    rw [hdigits, List.length_append, Decimal.zeros, List.length_replicate]
  have hfirst : 0 < (Text.ofNat j).length := List.length_pos_iff.2 (Nat.toDigits_ne_nil)
  rcases shortest_cases tie m with hexact | ⟨n, c, hfound, hnone⟩
  · have hall : Text.All (· == '0') (Decimal.zeros exactPlaces) := fun c hc => by
      rw [List.eq_of_mem_replicate hc]
      rfl
    have hsignificant : m.exact.significant = Text.dropTrailing (· == '0') (Text.ofNat j) := by
      rw [Decimal.significant, exact, hdigits, Text.dropTrailing_append_of_all hall]
    obtain ⟨s, hs, -⟩ := Text.exists_dropTrailing_append (· == '0') (Text.ofNat j)
    have hpoint : m.exact.pointAt = (Text.ofNat m.exactSteps).length + -(exactPlaces : Int) := rfl
    have hle := congrArg List.length hs
    rw [List.length_append] at hle
    rw [hexact, hsignificant, hpoint, hlength]
    omega
  · have hgrid : exactPlaces ≤ (Text.ofNat m.exactSteps).length - 1 - n := by
      by_contra hfiner
      -- the grid of the whole numbers came before
      have hwhole := hnone ((Text.ofNat j).length - 1) (by omega)
      rw [show (Text.ofNat m.exactSteps).length - 1 - ((Text.ofNat j).length - 1) = exactPlaces by omega,
        onGrid?_of_eq (exactSteps_of_whole hj)] at hwhole
      cases hwhole
    have hle := (m.shortest tie).length_significant_le
    rw [hfound] at hle ⊢
    unfold Decimal.pointAt
    dsimp only at hle ⊢
    omega

/-- A whole number is kept where the spacing is a part of 1, and what has a greater spacing is whole. -/
theorem unitsPerOne_dvd_rounded (k : Nat) : unitsPerOne ∣ rounded (k * unitsPerOne) 1 := by
  unfold rounded unitsPerOne
  generalize 1074 = e
  rw [Nat.div_one, Nat.one_mul]
  generalize spacingLog (k * twoPow e) = l
  by_cases hle : e ≤ l
  · exact Nat.dvd_trans (twoPow_dvd hle) (Nat.dvd_mul_left ..)
  · obtain ⟨q, hq⟩ := Nat.dvd_trans (twoPow_dvd (Nat.le_of_not_le hle)) (Nat.dvd_mul_left (twoPow e) k)
    rw [hq, Nat.mul_comm (twoPow l), roundHalfEven_mul_self q (twoPow_pos l), Nat.mul_comm q, ← hq]
    exact Nat.dvd_mul_left ..

/-- The numeral of a magnitude has a point exactly if the magnitude has a fraction. -/
theorem point_mem_iff (hm : m.units ≠ 0) : '.' ∈ (m.shortest tie).positional [] ↔ ¬ unitsPerOne ∣ m.units := by
  constructor
  · intro hpoint hwhole
    exact Decimal.point_not_mem_positional (digits_shortest tie hm) (length_significant_le hm hwhole) hpoint
  · intro hfraction
    by_contra hpoint
    have hread := Decimal.nearest?_ofPositional_shortest tie m
    rw [Decimal.ofPositional_whole hpoint, Decimal.nearest?_eq_quotient, nearest?_eq_some_iff] at hread
    generalize Nat.ofDigitChars 10 ((m.shortest tie).positional []) 0 = k at hread
    have hnumerator : Decimal.numerator ⟨k, 0⟩ = k := Nat.mul_one k
    have hdenominator : Decimal.denominator ⟨k, 0⟩ = 1 := rfl
    rw [hnumerator, hdenominator] at hread
    exact hfraction (hread ▸ unitsPerOne_dvd_rounded k)

end Magnitude

/-! ## Numerals with a sign -/

namespace Decimal

/-- The number that a numeral denotes, a minus sign before it or not. -/
def denoted : Text → ℚ
  | '-' :: t => -(ofPositional t).value
  | t => (ofPositional t).value

theorem denoted_sign_append (s : Bool) {t : Text} (ht : '-' ∉ t) :
    denoted (Binary64.sign s ++ t) = signed s (ofPositional t).value := by
  cases s with
  | false =>
    show denoted t = (ofPositional t).value
    unfold denoted
    split
    · exact absurd List.mem_cons_self ht
    · rfl
  | true => rfl

end Decimal

namespace Binary64

/-- A number without a fraction. -/
def IsWhole (x : Binary64) : Prop := ∃ n : Int, x.value = n

theorem isWhole_finite_iff {s : Bool} {m : Magnitude} : (finite s m).IsWhole ↔ Magnitude.unitsPerOne ∣ m.units := by
  have hunit := Magnitude.unitsPerOne_cast_pos
  constructor
  · rintro ⟨n, hn⟩
    have habs : m.value = |(n : ℚ)| := by
      rw [← hn, value, ← sub_zero (signed s m.value), show (0 : ℚ) = signed s 0 by cases s <;> simp [signed],
        abs_signed_sub m.value_nonneg le_rfl, if_pos rfl, sub_zero, abs_of_nonneg m.value_nonneg]
    have hunits : (m.units : ℚ) = (Magnitude.unitsPerOne * n.natAbs : Nat) := by
      rw [Magnitude.value, div_eq_iff hunit.ne'] at habs
      rw [habs, Nat.cast_mul, Nat.cast_natAbs, Int.cast_abs, mul_comm]
    exact ⟨_, Nat.cast_inj.1 hunits⟩
  · rintro ⟨j, hj⟩
    have hvalue : m.value = j := by
      rw [Magnitude.value, hj, Nat.cast_mul, mul_div_cancel_left₀ _ hunit.ne']
    refine ⟨if s then -j else j, ?_⟩
    cases s <;> simp [value, signed, hvalue]

/-- The sign and the digits of a finite number, and how they are read. -/
theorem exists_sign_digits {x : Binary64} (hx : x.isFinite = true) :
    ∃ (negative : Bool) (t : Text) (m : Magnitude), x.numeral = sign negative ++ t ∧ '-' ∉ t
      ∧ Decimal.IsPlain t ∧ ('.' ∈ t ↔ ¬ x.IsWhole)
      ∧ (Decimal.ofPositional t).nearest? = some m ∧ (finite negative m).same x = true := by
  obtain ⟨s, t, hspelled⟩ := exists_spelled x
  have hnumeral := hspelled.numeral_eq
  have hminus := hspelled.minus_not_mem_body
  cases hspelled with
  | nan => cases hx
  | infinite s => cases hx
  | zero s m h0 =>
    have hwhole : (finite s m).IsWhole := isWhole_finite_iff.2 (h0 ▸ Nat.dvd_zero _)
    have hdecimal : Decimal.ofPositional "0".toList = ⟨0, 0⟩ := by decide
    have hsame : (finite false m).same (finite s m) = true := by
      have hzero := same_zero_iff (s := s).2 h0
      rw [same_comm] at hzero
      exact same_trans (same_zero_iff.2 h0) hzero
    refine ⟨false, "0".toList, m, hnumeral, hminus, .inl Json.Token.digits_zero, ?_, ?_, hsame⟩
    · exact iff_of_false (by decide) (not_not.2 hwhole)
    · rw [hdecimal, Magnitude.nearest?_zero_digits, ← Magnitude.ext (a := m) (b := .zero) h0]
  | finite s m h0 =>
    refine ⟨s, _, m, hnumeral, hminus, Decimal.isPlain_positional (Magnitude.digits_shortest _ h0), ?_,
      Decimal.nearest?_ofPositional_shortest _ m, same_self nofun⟩
    rw [Magnitude.point_mem_iff h0, isWhole_finite_iff]

theorem IsNearest.congr {x y : Binary64} {q : ℚ} (hx : x.IsNearest q) (h : x.same y = true) : y.IsNearest q := by
  have hy : y.isFinite = true := by rw [← isFinite_congr h, hx.isFinite]
  have hvalue := (same_iff_value hx.isFinite hy).1 h
  refine ⟨hy, fun hz => hvalue ▸ hx.le hz, fun hz htie => ?_⟩
  rcases hx.even hz (by rw [htie, hvalue]) with hsame | heven
  · exact .inl (same_trans hsame h)
  · right
    obtain ⟨s, m, rfl⟩ := exists_finite hx.isFinite
    obtain ⟨t, n, rfl⟩ := exists_finite hy
    obtain ⟨-, rfl⟩ | ⟨-, h0⟩ := eq_or_zeros_of_place_eq (same_iff_place.1 h).1
    · exact heven
    · exact Magnitude.isEven_of_units_eq_zero h0

end Binary64

/-- Every finite number is printed as a plain numeral, behind a minus sign or none, with a point exactly if it has a
fraction. The numeral is read as that number, which is the only one that is nearest to what the numeral denotes. So two
finite numbers are printed alike exactly if they are the same number. Both zeros are printed as `0`. -/
theorem printed_numbers_read_back {x : Binary64} (hx : x.isFinite = true) :
    (∃ (negative : Bool) (t : Text) (m : Magnitude), x.numeral = Binary64.sign negative ++ t
        ∧ Decimal.IsPlain t ∧ ('.' ∈ t ↔ ¬ x.IsWhole)
        ∧ (Decimal.ofPositional t).nearest? = some m ∧ (Binary64.finite negative m).same x = true)
      ∧ (x.IsNearest (Decimal.denoted x.numeral)
        ∧ ∀ y : Binary64, y.IsNearest (Decimal.denoted x.numeral) → y.same x = true)
      ∧ (x.same .zero = true → x.numeral = "0".toList)
      ∧ ∀ y : Binary64, y.isFinite = true → (x.numeral = y.numeral ↔ x.same y = true) := by
  obtain ⟨negative, t, m, hnumeral, hminus, hplain, hpoint, hread, hsame⟩ := Binary64.exists_sign_digits hx
  have hnearest : x.IsNearest (Decimal.denoted x.numeral) := by
    rw [hnumeral, Decimal.denoted_sign_append negative hminus]
    exact (Binary64.isNearest_of_nearest? hread negative).congr hsame
  exact ⟨⟨negative, t, m, hnumeral, hplain, hpoint, hread, hsame⟩, ⟨hnearest, fun y hy => hy.same hnearest⟩,
    Binary64.numeral_of_same_zero, fun y _ => Binary64.numeral_eq_iff (Binary64.ne_nan_of_isFinite hx)⟩

/-- A number of 24 digits that is not what its numeral denotes: 10²³ lies in the middle between two numbers. -/
theorem ten_to_23_reads_back :
    let x : Binary64 := .ratio (tenPow 23) 1
    x.isFinite = true ∧ x.numeral = "100000000000000000000000".toList
      ∧ x.IsNearest (Decimal.denoted x.numeral)
      ∧ ∀ y : Binary64, y.IsNearest (Decimal.denoted x.numeral) → y.same x = true := by
  intro x
  have hx : x.isFinite = true := by decide +kernel
  exact ⟨hx, by decide +kernel, (printed_numbers_read_back hx).2.1⟩

end Watermark
