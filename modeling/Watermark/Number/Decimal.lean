import Watermark.Text
import Watermark.Number.Binary64

/-!
# Decimals and the shortest one that reads back

A `Decimal` is a natural number of steps of a power of ten. Reading one gives the nearest binary64 number
(`Decimal.nearest?`). In the other direction a magnitude has one exact decimal, with up to 1074 places, and many
shorter ones that read back as the same magnitude; `Magnitude.shortest` is one of the fewest digits among these,
and of those the nearest to the magnitude.

The search goes from coarse grids to fine ones. On the grid of multiples of 10ᵖ only the two neighbours of the
magnitude have to be tried (`Magnitude.onGrid?`), because the decimals that read back form an interval around it.
The first grid with a hit decides. Where both neighbours are equally near, a `Tie` says which is taken.
-/

namespace Watermark

/-- A power of ten. -/
def tenPow (e : Nat) : Nat := Nat.pow 10 e

/-- The number `digits · 10 ^ exponent`. -/
structure Decimal where
  digits : Nat
  exponent : Int
deriving DecidableEq, Repr

namespace Decimal

/-- The magnitude nearest to a decimal; none where it is too large. -/
def nearest? (d : Decimal) : Option Magnitude :=
  match d.exponent with
  | .ofNat e => Magnitude.nearest? (d.digits * tenPow e * Magnitude.unitsPerOne) 1
  | .negSucc e => Magnitude.nearest? (d.digits * Magnitude.unitsPerOne) (tenPow (e + 1))

/-- The digits without the zeros at their end. -/
def significant (d : Decimal) : Text := Text.dropTrailing (· == '0') (Text.ofNat d.digits)

/-- How many digits stand before the decimal point when the first one is not zero; zero or less where the
number begins behind the point. -/
def pointAt (d : Decimal) : Int := (Text.ofNat d.digits).length + d.exponent

end Decimal

/-- Which of two equally near decimals to take. -/
inductive Tie where
  | upward
  | toEven
deriving DecidableEq

/-- Takes `below` or its successor, according to which of the two will do: the nearer where both do, when `side`
compares the distance to `below` with the half of the grid. -/
def Tie.pick (tie : Tie) (below : Nat) (lower upper : Bool) (side : Ordering) : Option Nat :=
  match lower, upper with
  | false, false => none
  | true, false => some below
  | false, true => some (below + 1)
  | true, true =>
    match side with
    | .lt => some below
    | .gt => some (below + 1)
    | .eq => match tie with
      | .upward => some (below + 1)
      | .toEven => some (below + below % 2)

namespace Magnitude

/-- Places after the decimal point that write every magnitude exactly. -/
def exactPlaces : Nat := 1074

/-- A unit is 5¹⁰⁷⁴ steps of 10⁻¹⁰⁷⁴. -/
def stepsPerUnit : Nat := Nat.pow 5 exactPlaces

/-- The magnitude in steps of 10⁻¹⁰⁷⁴. -/
def exactSteps (m : Magnitude) : Nat := m.units * stepsPerUnit

/-- The decimal that is exactly the magnitude. -/
def exact (m : Magnitude) : Decimal := ⟨m.exactSteps, -exactPlaces⟩

/-- Whether so many steps of 10⁻¹⁰⁷⁴ are nearer to this magnitude than to any other. -/
def readsBack (m : Magnitude) (steps : Nat) : Bool := nearest? steps stepsPerUnit = some m

/-- The multiple of `tenPow p` steps next to the magnitude that reads back, the nearer if both do. -/
def onGrid? (tie : Tie) (m : Magnitude) (p : Nat) : Option Nat :=
  let below := m.exactSteps / tenPow p
  tie.pick below (m.readsBack (below * tenPow p)) (m.readsBack ((below + 1) * tenPow p))
    (compare (2 * (m.exactSteps % tenPow p)) (tenPow p))

/-- A decimal of the fewest digits that reads back as the magnitude, the nearest of these. Seventeen digits
always suffice; the exact decimal closes the definition. -/
def shortest (tie : Tie) (m : Magnitude) : Decimal :=
  let size := (Text.ofNat m.exactSteps).length
  let found := (List.range 17).findSome? fun n =>
    let p := size - 1 - n
    (m.onGrid? tie p).map fun c => (⟨c, p - exactPlaces⟩ : Decimal)
  found.getD m.exact

end Magnitude

end Watermark
