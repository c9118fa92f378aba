/-!
# Numbers of double precision

The numeric settings are binary floating-point numbers of 64 bits. A finite one is a whole number of units of
2⁻¹⁰⁷⁴, so its magnitude is kept as that natural number (`Magnitude.units`) together with the proof that it has
at most 53 significant binary digits and lies below 2¹⁰²⁴ (`Representable`). Sign and magnitude apart, there are
the two infinities and one not-a-number.

Every operation is computed exactly and rounded once, to the nearest representable number and to the even one
of two that are equally near (`Magnitude.nearest?`). Numbers compare by their place on the number line
(`Binary64.place`), where both zeros stand at 0 and not-a-number stands nowhere, so no comparison holds of it.
-/

namespace Watermark

/-- A power of two. -/
def twoPow (e : Nat) : Nat := Nat.pow 2 e

theorem twoPow_pos (e : Nat) : 0 < twoPow e := Nat.pow_pos (by decide)

theorem twoPow_add (d e : Nat) : twoPow (d + e) = twoPow d * twoPow e := Nat.pow_add 2 d e

theorem twoPow_dvd {d e : Nat} (h : d ≤ e) : twoPow d ∣ twoPow e := Nat.pow_dvd_pow 2 h

theorem log2_twoPow (e : Nat) : (twoPow e).log2 = e := Nat.log2_two_pow

theorem log2_lt_iff {n e : Nat} (h : n ≠ 0) : n.log2 < e ↔ n < twoPow e := Nat.log2_lt h

/-- Finite numbers lie below 2¹⁰²⁴, which is so many units of 2⁻¹⁰⁷⁴. -/
def unitsLimit : Nat := twoPow 2098

/-- The distance between neighbours at `units`, as a power of two: 53 binary digits are kept. -/
def spacingLog (units : Nat) : Nat := units.log2 - 52

/-- So many units of 2⁻¹⁰⁷⁴ are a binary64 number: below the limit, and a multiple of the spacing there. -/
def Representable (units : Nat) : Prop :=
  units < unitsLimit ∧ twoPow (spacingLog units) ∣ units

instance (units : Nat) : Decidable (Representable units) :=
  inferInstanceAs (Decidable (_ ∧ _))

theorem representable_of_lt {units : Nat} (h : units < twoPow 53) : Representable units := by
  have hle : twoPow 53 ≤ unitsLimit := Nat.le_of_dvd (twoPow_pos _) (twoPow_dvd (by decide))
  refine ⟨Nat.lt_of_lt_of_le h hle, ?_⟩
  have hlog : spacingLog units = 0 := by
    by_cases h0 : units = 0
    · subst h0; rfl
    · have := (log2_lt_iff h0).2 h
      rw [spacingLog]
      omega
  rw [hlog]
  exact Nat.one_dvd units

/-- Up to 2⁵³ spacings of 2ᵉ are representable wherever they fit. -/
theorem representable_mul {k e : Nat} (hk : k ≤ twoPow 53) (hlt : k * twoPow e < unitsLimit) :
    Representable (k * twoPow e) := by
  refine ⟨hlt, ?_⟩
  by_cases h0 : k = 0
  · subst h0
    rw [Nat.zero_mul]
    exact Nat.dvd_zero _
  have hne : k * twoPow e ≠ 0 := Nat.mul_ne_zero h0 (Nat.ne_of_gt (twoPow_pos e))
  by_cases hfull : k = twoPow 53
  · subst hfull
    rw [← twoPow_add, spacingLog, log2_twoPow]
    exact twoPow_dvd (by omega)
  · have hlog : (k * twoPow e).log2 < 53 + e := by
      rw [log2_lt_iff hne, twoPow_add]
      exact Nat.mul_lt_mul_of_pos_right (by omega) (twoPow_pos e)
    exact Nat.dvd_trans (twoPow_dvd (by rw [spacingLog]; omega)) (Nat.dvd_mul_left ..)

/-! ## Magnitudes -/

/-- A finite number without its sign, in units of 2⁻¹⁰⁷⁴. -/
structure Magnitude where
  units : Nat
  representable : Representable units
deriving DecidableEq

namespace Magnitude

@[ext] theorem ext {a b : Magnitude} (h : a.units = b.units) : a = b := by
  cases a; cases b; cases h; rfl

def zero : Magnitude := ⟨0, representable_of_lt (by decide)⟩

/-- One is 2¹⁰⁷⁴ units. -/
def unitsPerOne : Nat := twoPow 1074

/-- The quotient of `num` and `den`, rounded to a whole number, a half to the even one. -/
def roundHalfEven (num den : Nat) : Nat :=
  let floor := num / den
  match compare (2 * (num % den)) den with
  | .lt => floor
  | .gt => floor + 1
  | .eq => floor + floor % 2

theorem roundHalfEven_le_succ (num den : Nat) : roundHalfEven num den ≤ num / den + 1 := by
  unfold roundHalfEven
  dsimp only
  split <;> omega

/-- The representable number nearest to `num / den` units, the even one of two equally near; none where it would
be 2¹⁰²⁴ or more. -/
def nearest? (num den : Nat) : Option Magnitude :=
  let e := spacingLog (num / den)
  let k := roundHalfEven num (den * twoPow e)
  if h : k * twoPow e < unitsLimit then
    some ⟨k * twoPow e, representable_mul (by
      have hq : num / den < twoPow (53 + e) := by
        by_cases h0 : num / den = 0
        · rw [h0]
          exact twoPow_pos _
        · rw [← log2_lt_iff h0]
          simp only [e, spacingLog]
          omega
      have hfloor : num / (den * twoPow e) < twoPow 53 := by
        rw [← Nat.div_div_eq_div_mul, Nat.div_lt_iff_lt_mul (twoPow_pos e), ← twoPow_add]
        exact hq
      exact Nat.le_trans (roundHalfEven_le_succ ..) hfloor) h⟩
  else none

/-- The product, rounded; none where it is too large. -/
def mul? (a b : Magnitude) : Option Magnitude := nearest? (a.units * b.units) unitsPerOne

/-- The quotient, rounded; none where it is too large. -/
def div? (a b : Magnitude) : Option Magnitude := nearest? (a.units * unitsPerOne) b.units

/-- The number nearest to `n`; none where it would be 2¹⁰²⁴ or more. -/
def ofNat? (n : Nat) : Option Magnitude := nearest? (n * unitsPerOne) 1

end Magnitude

/-! ## Numbers -/

/-- A binary64 number. The two zeros are `finite` with magnitude 0 and either sign. -/
inductive Binary64 where
  | nan
  | infinite (negative : Bool)
  | finite (negative : Bool) (magnitude : Magnitude)
deriving DecidableEq

namespace Binary64

def zero : Binary64 := .finite false .zero

/-- The number nearest to `num / den` units with the given sign, infinite where it is too large. -/
def ofUnits (negative : Bool) (num den : Nat) : Binary64 :=
  match Magnitude.nearest? num den with
  | some m => .finite negative m
  | none => .infinite negative

/-- The positive number nearest to `num / den`. -/
def ratio (num den : Nat) : Binary64 := ofUnits false (num * Magnitude.unitsPerOne) den

def one : Binary64 := ratio 1 1

def isFinite : Binary64 → Bool
  | .finite .. => true
  | _ => false

/-! ### Order -/

/-- Where a number stands on the number line, in units; the infinities stand at ±2¹⁰²⁴, beyond every finite
number, and not-a-number stands nowhere. -/
def place : Binary64 → Option Int
  | .nan => none
  | .infinite false => some unitsLimit
  | .infinite true => some (-unitsLimit)
  | .finite false m => some m.units
  | .finite true m => some (-m.units)

/-- Whether two numbers stand at places in relation `r`. -/
def related (r : Int → Int → Bool) (a b : Binary64) : Bool :=
  match a.place, b.place with
  | some x, some y => r x y
  | _, _ => false

/-- Equal as numbers: the zeros are equal, and not-a-number equals nothing. -/
def same (a b : Binary64) : Bool := related (fun x y => x == y) a b

def lt (a b : Binary64) : Bool := related (fun x y => decide (x < y)) a b

def le (a b : Binary64) : Bool := related (fun x y => decide (x ≤ y)) a b

def isPositive (a : Binary64) : Bool := lt zero a

/-- `a`, or 0 where `a` is not above it; so 0 for not-a-number. -/
def orZero (a : Binary64) : Binary64 := if a.isPositive then a else zero

/-- The nearest number to `a` between `low` and `high`; not-a-number stays. -/
def clamp (low high a : Binary64) : Binary64 :=
  if lt a low then low else if lt high a then high else a

/-! ### Difference -/

/-- The difference, rounded. Equal finite numbers differ by +0, except that -0 less +0 is -0. -/
def sub : Binary64 → Binary64 → Binary64
  | .nan, _ => .nan
  | _, .nan => .nan
  | .infinite s, .infinite t => if s = t then .nan else .infinite s
  | .infinite s, .finite .. => .infinite s
  | .finite .., .infinite t => .infinite (!t)
  | .finite s a, .finite t b =>
    let units (negative : Bool) (m : Magnitude) : Int := if negative then -m.units else m.units
    let d := units s a - units t b
    if d = 0 then .finite (s && !t) .zero else ofUnits (decide (d < 0)) d.natAbs 1

end Binary64

end Watermark
