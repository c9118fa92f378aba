import Watermark.Number.Decimal

/-!
# Writing numbers

Two notations share the shortest digits. The plain one (`Binary64.plain`) never has an exponent and leaves whole
numbers without a point: it is the notation of commands, scripts and messages. The exchange notation
(`Binary64.exchange?`) is that of saved files: whole numbers keep `.0`, and far from 1 an exponent takes the
place of the zeros. Files have no spelling for infinities and not-a-number.

`Binary64.numeral` is the plain notation of the command line itself, which has no negative zero.
-/

namespace Watermark

namespace Decimal

/-- `n` zeros. -/
def zeros (n : Nat) : Text := List.replicate n '0'

/-- The digits with zeros and a point where they are needed, and `whole` after a whole number. -/
def positional (whole : Text) (d : Decimal) : Text :=
  let digits := d.significant
  let before := d.pointAt
  if before ≤ 0 then "0.".toList ++ zeros (-before).toNat ++ digits
  else if digits.length ≤ before.toNat then digits ++ zeros (before.toNat - digits.length) ++ whole
  else digits.take before.toNat ++ '.' :: digits.drop before.toNat

/-- One digit before the point and an exponent with its sign after `e`; no point behind a single digit. -/
def scientific (d : Decimal) : Text :=
  let exponent := d.pointAt - 1
  let mantissa := match d.significant with
    | [] => "0".toList
    | [c] => [c]
    | c :: rest => c :: '.' :: rest
  let sign := if exponent < 0 then '-' else '+'
  mantissa ++ 'e' :: sign :: Text.ofNat exponent.natAbs

/-- Positional while the exponent of the first digit is from -5 to 15, scientific beyond. -/
def exchange (d : Decimal) : Text :=
  if -5 ≤ d.pointAt - 1 ∧ d.pointAt - 1 ≤ 15 then d.positional ".0".toList else d.scientific

end Decimal

namespace Binary64

/-- A minus sign for a negative number. -/
def sign (negative : Bool) : Text := if negative then ['-'] else []

/-- The shortest digits that read back, never with an exponent; `-0` for negative zero. -/
def plain : Binary64 → Text
  | .nan => "NaN".toList
  | .infinite negative => sign negative ++ "inf".toList
  | .finite negative m =>
    sign negative ++ if m.units = 0 then "0".toList else (m.shortest .upward).positional []

/-- The plain notation, with `0` for both zeros. -/
def numeral (x : Binary64) : Text := if x.same zero then "0".toList else x.plain

/-- The notation of saved files; none for infinities and not-a-number. -/
def exchange? : Binary64 → Option Text
  | .finite negative m =>
    some (sign negative ++ if m.units = 0 then "0.0".toList else (m.shortest .toEven).exchange)
  | _ => none

end Binary64

end Watermark
