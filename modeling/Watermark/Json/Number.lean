import Watermark.Json.Reader
import Watermark.Number.Decimal

/-!
# JSON numbers

Reading a number has two halves. `Token.scan` takes the characters of a number and keeps its parts; `Token.value`
says what they denote. A number without point and exponent is whole while it fits 64 bits. Every other number is
a float, and it is computed quickly rather than exactly: the digits that fit 64 bits make a significand, which is
rounded once to a binary64 number and then once more with each scaling by a power of ten. So the result can be a
neighbour of the nearest number; digits that do not fit are dropped.

A number beyond the range of binary64 is refused as if it were not JSON.
-/

namespace Watermark.Json

/-- The parts of a number as they were written. -/
structure Token where
  negative : Bool
  /-- The digits before the point, without needless zeros in front. -/
  whole : Text
  /-- The digits behind the point. -/
  fraction : Option Text
  /-- Whether the exponent is negative, and its digits. -/
  exponent : Option (Bool × Text)
deriving DecidableEq

namespace Token

/-! ## Scanning -/

/-- Takes digits as long as there are any. -/
def digits : Reader Text := do
  let t ← get
  set (t.dropWhile Char.isDigit)
  return t.takeWhile Char.isDigit

/-- Takes digits, of which there has to be one. -/
def someDigits : Reader Text := do
  match ← look? with
  | none => throw .truncated
  | some c => if c.isDigit then digits else throw .malformed

/-- Takes the digits before the point: a lone zero, or digits that do not begin with one. -/
def wholeDigits : Reader Text := do
  match ← someDigits with
  | '0' :: _ :: _ => throw .malformed
  | ds => return ds

/-- Takes the next character if it is one of those given. -/
def oneOf? (cs : Text) : Reader (Option Char) := do
  match ← look? with
  | some c => if cs.contains c then do advance; return some c else return none
  | none => return none

/-- Takes the characters of a number. -/
def scan : Reader Token := do
  let minus ← oneOf? ['-']
  let whole ← wholeDigits
  let fraction ← match ← oneOf? ['.'] with
    | some _ => some <$> someDigits
    | none => pure none
  let exponent ← match ← oneOf? ['e', 'E'] with
    | some _ => do
      let sign ← oneOf? ['+', '-']
      let ds ← someDigits
      pure (some (sign == some '-', ds))
    | none => pure none
  return ⟨minus.isSome, whole, fraction, exponent⟩

/-- Passes over a number. A number that nobody wants and that breaks off counts as malformed. -/
def skip : Reader Unit := fun t =>
  match scan.run t with
  | .ok (_, rest) => .ok ((), rest)
  | .error _ => .error .malformed

end Token

/-! ## Values -/

/-- What a number denotes. -/
inductive Numeral where
  | whole (n : Int)
  | float (x : Binary64)
deriving DecidableEq

/-- Significands have 64 bits. -/
def significandLimit : Nat := UInt64.size

/-- Appends digits to a significand while it fits 64 bits; the digits that are left over. -/
def appendDigits (n : Nat) : Text → Nat × Text
  | [] => (n, [])
  | c :: rest =>
    let next := n * 10 + (c.toNat - '0'.toNat)
    if next < significandLimit then appendDigits next rest else (n, c :: rest)

namespace Significand

/-- The number nearest to `tenPow k`, none where it is too large. -/
def tenPower? (k : Nat) : Option Magnitude := Magnitude.ofNat? (tenPow k)

/-- The largest power of ten in range. -/
def largestPower : Nat := 308

/-- Divides by `10 ^ k`, by `10 ^ 308` at a time while `k` is larger and the number is not yet 0. -/
def scaleDown : Nat → Nat → Magnitude → Option Magnitude
  | 0, _, m => some m
  | steps + 1, k, m =>
    if k ≤ largestPower then do m.div? (← tenPower? k)
    else if m.units = 0 then some m
    else do scaleDown steps (k - largestPower) (← m.div? (← tenPower? largestPower))

/-- A significand times a power of ten, none where it is out of range. -/
def scaled (significand : Nat) (exponent : Int) : Option Magnitude := do
  let m ← Magnitude.ofNat? significand
  match exponent with
  | .ofNat k =>
    if k ≤ largestPower then m.mul? (← tenPower? k)
    else if m.units = 0 then some m
    else none
  | .negSucc k => scaleDown (k / largestPower + 1) (k + 1) m

end Significand

namespace Token

/-- The exponent that is written. -/
def writtenExponent (t : Token) : Int :=
  match t.exponent with
  | none => 0
  | some (negative, ds) =>
    let n : Int := Nat.ofDigitChars 10 ds 0
    if negative then -n else n

/-- The number as a significand of 64 bits and a power of ten. A digit before the point that does not fit is worth
a power of ten, one behind it nothing. -/
def decimal (t : Token) : Decimal :=
  let (n, dropped) := appendDigits 0 t.whole
  let fraction := t.fraction.getD []
  let (n, ignored) := appendDigits n fraction
  ⟨n, dropped.length - (fraction.length - ignored.length : Nat) + t.writtenExponent⟩

/-- The number as a float. -/
def float (t : Token) : Except Fault Binary64 :=
  (Significand.scaled t.decimal.digits t.decimal.exponent).elim (.error .malformed) fun m =>
    .ok (.finite t.negative m)

/-- What the number denotes. Negative zero is a float, since no whole number is that. -/
def value (t : Token) : Except Fault Numeral := do
  let n : Int := Nat.ofDigitChars 10 t.whole 0
  let fits := if t.negative then 0 < n && Int64.minValue.toInt ≤ -n else n < significandLimit
  if t.fraction.isNone && t.exponent.isNone && fits then return .whole (if t.negative then -n else n)
  else return .float (← t.float)

end Token

namespace Numeral

/-- Reads a number. -/
def read : Reader Numeral := do
  let t ← Token.scan
  liftM t.value

/-- A number as a float; a whole number gives the nearest one. -/
def toBinary64 : Numeral → Binary64
  | .whole n => .ofUnits (n < 0) (n.natAbs * Magnitude.unitsPerOne) 1
  | .float x => x

/-- A whole number from `low` to `high`. -/
def within? (low high : Int) : Numeral → Option Int
  | .whole n => if low ≤ n ∧ n ≤ high then some n else none
  | .float _ => none

end Numeral

end Watermark.Json
