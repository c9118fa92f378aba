import Watermark.Json.Value
import Watermark.Proofs.Json.Significand
import Watermark.Proofs.Number.Numeral

/-!
# Floats and the files they are written to

A finite number is written to a file with a point or an exponent, in the parts `Token.ofMagnitude`. These are its text
(`Token.text_ofMagnitude`) and they denote it (`Token.nearest?_written`). Reading them need not give the number back,
since reading is quick and not exact; `Binary64.Survives` says that it does.

* `reads_float`: what is read depends only on the number, not on what stands around it;
* `Binary64.same_reread_iff`: a number that is read as the same number is read as it was;
* `Binary64.Short.survives`: numbers with at most fifteen digits near their point survive.
-/

namespace Watermark

/-- Few digits near the point: the number is 0, or its shortest decimal has at most fifteen digits and lies between
10⁻⁸ and 10¹⁴. -/
def Magnitude.Short (m : Magnitude) : Prop :=
  m.units = 0
    ∨ (m.shortest .toEven).significant.length ≤ 15 ∧ -7 ≤ (m.shortest .toEven).pointAt
      ∧ (m.shortest .toEven).pointAt ≤ 14

namespace Json.Token

/-! ## The parts of a written float -/

/-- A decimal in the parts in which `Decimal.exchange` writes it. -/
def ofDecimal (negative : Bool) (d : Decimal) : Token :=
  let digits := d.significant
  let before := d.pointAt
  if -5 ≤ before - 1 ∧ before - 1 ≤ 15 then
    if before ≤ 0 then ⟨negative, ['0'], some (Decimal.zeros (-before).toNat ++ digits), none⟩
    else if digits.length ≤ before.toNat then
      ⟨negative, digits ++ Decimal.zeros (before.toNat - digits.length), some ['0'], none⟩
    else ⟨negative, digits.take before.toNat, some (digits.drop before.toNat), none⟩
  else
    ⟨negative, digits.take 1, if digits.length = 1 then none else some (digits.drop 1),
      some (decide (before - 1 < 0), Text.ofNat (before - 1).natAbs)⟩

variable (negative : Bool) {d : Decimal}

open Decimal (zeros)

theorem text_ofDecimal (h : d.digits ≠ 0) :
    (ofDecimal negative d).text = Binary64.sign negative ++ d.exchange := by
  have hne := Decimal.significant_ne_nil h
  unfold ofDecimal Decimal.exchange text
  dsimp only
  split
  · unfold Decimal.positional
    dsimp only
    split
    · simp [fractionText, exponentText]
    split
    · simp [fractionText, exponentText]
    · simp [fractionText, exponentText]
  · unfold Decimal.scientific
    dsimp only
    rcases hs : d.significant with _ | ⟨c, _ | ⟨c', rest⟩⟩
    · exact absurd hs hne
    · simp [fractionText, exponentText]
    · simp [fractionText, exponentText]

theorem digits_significant (h : d.digits ≠ 0) : Digits d.significant :=
  ⟨Decimal.significant_ne_nil h, fun _ => Decimal.isDigit_of_mem_significant⟩

theorem Digits.append {s t : Text} (hs : Digits s) (ht : t.All Char.isDigit) : Digits (s ++ t) :=
  ⟨by simp [hs.1], hs.2.append ht⟩

theorem Digits.of_append {s t : Text} (hs : s.All Char.isDigit) (ht : Digits t) : Digits (s ++ t) :=
  ⟨by simp [ht.1], hs.append ht.2⟩

/-- The first digits, one at least. -/
theorem Digits.take {s : Text} (hs : Digits s) {n : Nat} (hn : 0 < n) : Digits (s.take n) := by
  refine ⟨fun hnil => ?_, fun c hc => hs.2 c (List.mem_of_mem_take hc)⟩
  rcases List.take_eq_nil_iff.1 hnil with h | h
  · omega
  · exact hs.1 h

theorem Digits.drop {s : Text} (hs : Digits s) {n : Nat} (hn : n < s.length) : Digits (s.drop n) := by
  refine ⟨fun hnil => ?_, fun c hc => hs.2 c (List.mem_of_mem_drop hc)⟩
  have := List.drop_eq_nil_iff.1 hnil
  omega

theorem digits_zero : Digits ['0'] := ⟨by simp, by decide⟩

theorem wellFormed_ofDecimal (h : d.digits ≠ 0) : (ofDecimal negative d).WellFormed := by
  have hdigits := digits_significant h
  have hhead := Decimal.head?_significant h
  have hzeros : ∀ k, (zeros k).All Char.isDigit := fun k c => Decimal.isDigit_of_mem_zeros
  have hfirst : ∀ n, 0 < n → (d.significant.take n).head? ≠ some '0' := by
    intro n hn
    rw [List.head?_take, if_neg (by omega)]
    exact hhead
  unfold ofDecimal
  dsimp only
  split
  · split
    · refine ⟨digits_zero, fun _ => rfl, ?_, nofun⟩
      rintro ds ⟨rfl⟩
      exact .of_append (hzeros _) hdigits
    split
    · refine ⟨hdigits.append (hzeros _), fun hlone => ?_, ?_, nofun⟩
      · obtain ⟨c, t, hs⟩ := List.exists_cons_of_ne_nil hdigits.1
        rw [hs] at hhead
        dsimp only at hlone
        rw [hs] at hlone
        exact absurd hlone hhead
      · rintro ds ⟨rfl⟩
        exact digits_zero
    · refine ⟨hdigits.take (by omega), fun hlone => absurd hlone (hfirst _ (by omega)), ?_, nofun⟩
      rintro ds ⟨rfl⟩
      exact hdigits.drop (by omega)
  · refine ⟨hdigits.take Nat.one_pos, fun hlone => absurd hlone (hfirst _ Nat.one_pos), ?_, ?_⟩
    · intro ds hds
      dsimp only at hds
      split at hds
      · cases hds
      · obtain rfl := Option.some.inj hds
        have := List.length_pos_iff.2 hdigits.1
        exact hdigits.drop (by omega)
    · rintro p ⟨rfl⟩
      exact digits_ofNat _

/-- What is written is the significant digits, with zeros up to behind the point where the number is whole. -/
theorem written_ofDecimal (h : d.digits ≠ 0) :
    ∃ k : Nat, (ofDecimal negative d).written
        = ⟨d.significand * tenPow k, d.pointAt - d.significant.length - k⟩
      ∧ (k = 0 ∨ d.significant.length + k = d.pointAt + 1) := by
  have hpos := List.length_pos_iff.2 (Decimal.significant_ne_nil h)
  have hone : tenPow 0 = 1 := rfl
  unfold ofDecimal written
  dsimp only
  split
  · split
    · refine ⟨0, ?_, .inl rfl⟩
      rw [Option.getD_some, ← List.append_assoc, show ['0'] = zeros 1 from rfl, hone, Nat.mul_one,
        zeros, zeros, List.replicate_append_replicate, ← zeros, Decimal.ofDigitChars_zeros_append]
      congr 1
      simp [writtenExponent]
      omega
    split
    · refine ⟨d.pointAt.toNat - d.significant.length + 1, ?_, .inr (by omega)⟩
      rw [Option.getD_some, List.append_assoc, show ['0'] = zeros 1 from rfl,
        zeros, zeros, List.replicate_append_replicate, ← zeros, Decimal.ofDigitChars_append_zeros]
      congr 1
      simp [writtenExponent]
      omega
    · refine ⟨0, ?_, .inl rfl⟩
      rw [Option.getD_some, List.take_append_drop, hone, Nat.mul_one]
      congr 1
      simp [writtenExponent]
      omega
  · refine ⟨0, ?_, .inl rfl⟩
    have hfraction : (if d.significant.length = 1 then none else some (d.significant.drop 1)).getD []
        = d.significant.drop 1 := by
      split
      · rename_i hlen
        exact (List.drop_eq_nil_iff.2 (by omega)).symm
      · rfl
    have hread := Text.ofDigitChars_ofNat (d.pointAt - 1).natAbs
    rw [hfraction, List.take_append_drop, hone, Nat.mul_one]
    congr 1
    simp only [writtenExponent, hread, List.length_drop, decide_eq_true_eq]
    split <;> omega

theorem nearest?_written_ofDecimal (h : d.digits ≠ 0) :
    (ofDecimal negative d).written.nearest? = d.nearest? := by
  obtain ⟨k, hk, -⟩ := written_ofDecimal negative h
  rw [hk, Decimal.nearest?_shift, Decimal.nearest?_eq_significand d]
  congr 2
  omega

/-- The parts in which a finite number is written to a file. -/
def ofMagnitude (negative : Bool) (m : Magnitude) : Token :=
  if m.units = 0 then ⟨negative, ['0'], some ['0'], none⟩ else ofDecimal negative (m.shortest .toEven)

variable (m : Magnitude)

theorem text_ofMagnitude : (ofMagnitude negative m).text = Value.floatText (.finite negative m) := by
  rw [Value.floatText, Binary64.exchange?, Option.getD_some]
  unfold ofMagnitude
  split
  · cases negative <;> rfl
  · rename_i h
    exact text_ofDecimal negative (Magnitude.digits_shortest .toEven h)

theorem wellFormed_ofMagnitude : (ofMagnitude negative m).WellFormed := by
  unfold ofMagnitude
  split
  · refine ⟨digits_zero, fun _ => rfl, ?_, nofun⟩
    rintro ds ⟨rfl⟩
    exact digits_zero
  · rename_i h
    exact wellFormed_ofDecimal negative (Magnitude.digits_shortest .toEven h)

theorem negative_ofMagnitude : (ofMagnitude negative m).negative = negative := by
  unfold ofMagnitude ofDecimal
  dsimp only
  repeat' split
  all_goals rfl

/-- A float is written with a point or an exponent. -/
theorem value_ofMagnitude : (ofMagnitude negative m).value = (ofMagnitude negative m).float.map .float := by
  have hparts : ((ofMagnitude negative m).fraction.isNone && (ofMagnitude negative m).exponent.isNone) = false := by
    unfold ofMagnitude ofDecimal
    dsimp only
    repeat' split
    all_goals simp
  unfold value
  dsimp only
  rw [hparts, Bool.false_and, if_neg Bool.false_ne_true]
  cases (ofMagnitude negative m).float <;> rfl

/-- What is written denotes the number. -/
theorem nearest?_written : (ofMagnitude negative m).written.nearest? = some m := by
  unfold ofMagnitude
  split
  · rename_i h
    have hzero : m = Magnitude.zero := Magnitude.ext h
    rw [hzero]
    exact Magnitude.nearest?_zero_digits _
  · rename_i h
    rw [nearest?_written_ofDecimal negative (Magnitude.digits_shortest .toEven h), Magnitude.nearest?_shortest]

theorem short_written (h : m.Short) :
    (ofMagnitude negative m).written.digits ≤ twoPow 53 ∧ -22 ≤ (ofMagnitude negative m).written.exponent
      ∧ (ofMagnitude negative m).written.exponent ≤ 22 := by
  unfold ofMagnitude
  split
  · have hzero : (⟨negative, ['0'], some ['0'], none⟩ : Token).written = ⟨0, -1⟩ := rfl
    rw [hzero]
    exact ⟨Nat.zero_le _, by decide, by decide⟩
  · rename_i h0
    obtain ⟨hlen, hlow, hhigh⟩ := h.resolve_left h0
    have hd := Magnitude.digits_shortest .toEven h0
    generalize m.shortest .toEven = d at hlen hlow hhigh hd ⊢
    have hpos := List.length_pos_iff.2 (Decimal.significant_ne_nil hd)
    obtain ⟨k, hk, hzeros⟩ := written_ofDecimal negative hd
    have hlt := Text.ofDigitChars_lt (digits_significant hd).2 0
    rw [hk]
    refine ⟨?_, by dsimp only; omega, by dsimp only; omega⟩
    have hten : d.significant.length + k ≤ 15 := by omega
    calc d.significand * tenPow k
        ≤ 10 ^ d.significant.length * 10 ^ k := Nat.mul_le_mul_right _ (by unfold Decimal.significand; omega)
      _ = 10 ^ (d.significant.length + k) := (Nat.pow_add ..).symm
      _ ≤ 10 ^ 15 := Nat.pow_le_pow_right (by decide) hten
      _ ≤ twoPow 53 := by decide

end Json.Token

/-! ## Reading what was written -/

namespace Binary64

/-- What is read where the number was written. -/
def reread (x : Binary64) : Except Json.Fault Binary64 := Json.readAll Json.float (Json.Value.floatText x)

/-- The number is read as it was written. -/
def Survives (x : Binary64) : Prop := x.reread = .ok x

instance (x : Binary64) : Decidable x.Survives := inferInstanceAs (Decidable (_ = _))

end Binary64

namespace Json

open Token (ofMagnitude)

theorem float_eq_map : float = Numeral.toBinary64 <$> numeral := (map_eq_pure_bind _ _).symm

theorem reads_ofMagnitude (negative : Bool) (m : Magnitude) :
    Reads float (Value.floatText (.finite negative m)) (ofMagnitude negative m).float := by
  have h := (reads_numeral (Token.wellFormed_ofMagnitude negative m).spells).map Numeral.toBinary64
  rw [← float_eq_map, Token.text_ofMagnitude, Token.value_ofMagnitude] at h
  cases hf : (ofMagnitude negative m).float <;> rw [hf] at h <;> exact h

/-- What is read depends only on the number. -/
theorem reads_float {x : Binary64} (h : x.isFinite = true) : Reads float (Value.floatText x) x.reread := by
  cases x with
  | nan => cases h
  | infinite s => cases h
  | finite negative m =>
    have hreads := reads_ofMagnitude negative m
    rw [Binary64.reread, hreads.readAll]
    exact hreads

end Json

namespace Binary64

open Json (Token Token.ofMagnitude)

theorem reread_finite (negative : Bool) (m : Magnitude) :
    reread (.finite negative m) = (Token.ofMagnitude negative m).float := (Json.reads_ofMagnitude negative m).readAll

/-- A number comes back as the same number only if it comes back as it was. -/
theorem same_reread_iff {x y : Binary64} (hx : x.isFinite = true) (h : x.reread = .ok y) :
    y.same x = true ↔ x.Survives := by
  cases x with
  | nan => cases hx
  | infinite s => cases hx
  | finite negative m =>
    have hfloat := h
    rw [reread_finite] at hfloat
    obtain ⟨n, -, hn⟩ := Token.float_eq_ok_iff.1 hfloat
    rw [Token.negative_ofMagnitude] at hn
    subst hn
    rw [Survives, h]
    constructor
    · intro hsame
      obtain ⟨-, rfl⟩ | ⟨hn, hm⟩ := eq_or_zeros_of_place_eq (same_iff_place.1 hsame).1
      · rfl
      · rw [Magnitude.ext (hn.trans hm.symm)]
    · intro heq
      rw [Except.ok.inj heq]
      exact same_self nofun

/-- A number survives if its written digits, rounded and scaled, are the number again. -/
theorem survives_iff {negative : Bool} {m : Magnitude} : (finite negative m).Survives ↔
    Json.Significand.scaled (Token.ofMagnitude negative m).decimal.digits
      (Token.ofMagnitude negative m).decimal.exponent = some m := by
  rw [Survives, reread_finite, Token.float_eq_ok_iff, Token.negative_ofMagnitude]
  simp

/-- A finite number of short magnitude. -/
def Short : Binary64 → Prop
  | .finite _ m => m.Short
  | _ => False

theorem Short.isFinite {x : Binary64} (h : x.Short) : x.isFinite = true := by
  cases x with
  | nan => cases h
  | infinite s => cases h
  | finite s m => rfl

/-- Short numbers are read as they were written. -/
theorem Short.survives {x : Binary64} (h : x.Short) : x.Survives := by
  cases x with
  | nan => cases h
  | infinite s => cases h
  | finite negative m =>
    obtain ⟨hdigits, hlow, hhigh⟩ := Token.short_written negative m h
    rw [survives_iff, Token.scaled_of_short hdigits hlow hhigh]
    exact Token.nearest?_written negative m

end Binary64

/-! ## What is read is finite -/

namespace Json

/-- A number is whole, and fits 64 bits, or it is the float of its parts. -/
theorem value_cases {t : Token} {n : Numeral} (h : t.value = .ok n) :
    (∃ k : Int, n = .whole k ∧ k.natAbs < significandLimit) ∨ ∃ x, n = .float x ∧ t.float = .ok x := by
  have hmin : Int64.minValue.toInt = -2 ^ 63 := rfl
  have hlimit : significandLimit = 2 ^ 64 := rfl
  rw [Token.value_eq] at h
  split at h
  · rename_i hwhole
    refine .inl ⟨t.int, (Except.ok.inj h).symm, ?_⟩
    omega
  · cases hf : t.float with
    | error e =>
      rw [hf] at h
      cases h
    | ok x =>
      rw [hf] at h
      exact .inr ⟨x, (Except.ok.inj h).symm, rfl⟩

theorem isFinite_ofUnits {negative : Bool} {num den : Nat} (h : num / den < twoPow 2097) :
    (Binary64.ofUnits negative num den).isFinite = true := by
  obtain ⟨m, hm⟩ := Magnitude.exists_nearest? h
  unfold Binary64.ofUnits
  rw [hm]
  rfl

theorem isFinite_of_value {t : Token} {n : Numeral} (h : t.value = .ok n) : n.toBinary64.isFinite = true := by
  obtain ⟨k, rfl, hk⟩ | ⟨x, rfl, hx⟩ := value_cases h
  · have hlimit : significandLimit = twoPow 64 := rfl
    rw [hlimit] at hk
    have hunits : k.natAbs * Magnitude.unitsPerOne < twoPow (64 + 1074) := by
      rw [twoPow_add, Magnitude.unitsPerOne]
      exact Nat.mul_lt_mul_of_pos_right hk (twoPow_pos 1074)
    have hquotient : k.natAbs * Magnitude.unitsPerOne / 1 < twoPow 2097 := by
      rw [Nat.div_one]
      exact Nat.lt_trans hunits (twoPow_lt (by decide))
    rw [Numeral.toBinary64]
    exact isFinite_ofUnits hquotient
  · obtain ⟨m, -, rfl⟩ := Token.float_eq_ok_iff.1 hx
    rfl

theorem isFinite_of_run_float {t rest : Text} {x : Binary64} (h : float.run t = .ok (x, rest)) :
    x.isFinite = true := by
  rw [float_eq_map] at h
  obtain ⟨n, hn, rfl⟩ := run_map_eq_ok_iff.1 h
  obtain ⟨c, u, -, hread⟩ := run_bind_eq_ok_iff.1 hn
  split at hread
  · obtain ⟨token, v, -, hvalue⟩ := run_bind_eq_ok_iff.1 hread
    cases hv : token.value with
    | error e =>
      rw [hv] at hvalue
      cases hvalue
    | ok m =>
      rw [hv] at hvalue
      cases hvalue
      exact isFinite_of_value hv
  · exact absurd hread (run_refuse _ _)

end Json

end Watermark
