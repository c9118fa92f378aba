import Watermark.Number.Notation
import Watermark.Proofs.Number.Shortest
import Watermark.Proofs.Text

/-!
# Numerals denote their numbers

A numeral without sign is read by counting the digits behind its point (`Decimal.ofPositional`). The positional
notation of a decimal is read as a number with the same nearest magnitude (`nearest?_ofPositional`), so with the
shortest digits every magnitude comes back from its numeral. Two consequences carry the rest:

* `Binary64.mem_numeral`: the characters of a numeral are letters, digits, points and minus signs;
* `Binary64.numeral_eq_iff`: two numbers have one numeral exactly if they are the same number.
-/

namespace Watermark

namespace Decimal

/-! ## Reading a numeral -/

/-- The decimal that digits with at most one point among them denote. -/
def ofPositional (t : Text) : Decimal :=
  let whole := t.takeWhile (· != '.')
  let fraction := (t.dropWhile (· != '.')).tail
  ⟨Nat.ofDigitChars 10 (whole ++ fraction) 0, -fraction.length⟩

theorem ofPositional_whole {t : Text} (h : '.' ∉ t) :
    ofPositional t = ⟨Nat.ofDigitChars 10 t 0, 0⟩ := by
  have hne : ∀ c ∈ t, (c != '.') = true := fun c hc => by
    rw [bne_iff_ne]
    rintro rfl
    exact h hc
  have hdrop : t.dropWhile (· != '.') = [] := List.dropWhile_eq_nil_iff.2 hne
  have htake : t.takeWhile (· != '.') = t := by
    have := List.takeWhile_append_dropWhile (p := (· != '.')) (l := t)
    rwa [hdrop, List.append_nil] at this
  rw [ofPositional, htake, hdrop]
  simp

theorem ofPositional_point {a b : Text} (h : '.' ∉ a) :
    ofPositional (a ++ '.' :: b) = ⟨Nat.ofDigitChars 10 (a ++ b) 0, -b.length⟩ := by
  have hne : ∀ c ∈ a, (c != '.') = true := fun c hc => by
    rw [bne_iff_ne]
    rintro rfl
    exact h hc
  rw [ofPositional, List.takeWhile_append_of_pos hne, List.dropWhile_append_of_pos hne]
  simp

/-! ## Digits and zeros -/

/-- The significant digits as a number. -/
def significand (d : Decimal) : Nat := Nat.ofDigitChars 10 d.significant 0

theorem ofDigitChars_append_zeros (t : Text) (k : Nat) :
    Nat.ofDigitChars 10 (t ++ zeros k) 0 = Nat.ofDigitChars 10 t 0 * tenPow k := by
  rw [Nat.ofDigitChars_append, zeros, Nat.ofDigitChars_replicate_zero, Nat.mul_comm]
  rfl

theorem ofDigitChars_zeros_append (k : Nat) (t : Text) :
    Nat.ofDigitChars 10 (zeros k ++ t) 0 = Nat.ofDigitChars 10 t 0 := by
  rw [Nat.ofDigitChars_append, zeros, Nat.ofDigitChars_replicate_zero, Nat.mul_zero]

/-- The digits are the significant ones and some zeros. -/
theorem exists_zeros (d : Decimal) : ∃ k, d.significant ++ zeros k = Text.ofNat d.digits := by
  obtain ⟨s, hs, h0⟩ := Text.exists_dropTrailing_append (· == '0') (Text.ofNat d.digits)
  refine ⟨s.length, ?_⟩
  have hrep : s = zeros s.length := List.eq_replicate_iff.2 ⟨rfl, fun c hc => by simpa using h0 c hc⟩
  rw [← hrep]
  exact hs

theorem significant_ne_nil {d : Decimal} (h : d.digits ≠ 0) : d.significant ≠ [] := by
  intro hnil
  obtain ⟨k, hk⟩ := d.exists_zeros
  have hvalue := Text.ofDigitChars_ofNat d.digits
  rw [← hk, hnil, ofDigitChars_append_zeros] at hvalue
  simp at hvalue
  exact h hvalue.symm

theorem head?_significant {d : Decimal} (h : d.digits ≠ 0) : d.significant.head? ≠ some '0' := by
  obtain ⟨k, hk⟩ := d.exists_zeros
  obtain ⟨c, t, ht⟩ := List.exists_cons_of_ne_nil (significant_ne_nil h)
  have hhead := Text.head?_ofNat_ne_zero h
  rw [← hk, ht] at hhead
  rw [ht]
  exact hhead

theorem isDigit_of_mem_significant {d : Decimal} {c : Char} (h : c ∈ d.significant) :
    c.isDigit = true :=
  Text.isDigit_of_mem_ofNat ((List.rdropWhile_prefix _ _).subset h)

theorem isDigit_of_mem_zeros {k : Nat} {c : Char} (h : c ∈ zeros k) : c.isDigit = true := by
  rw [List.eq_of_mem_replicate h]
  rfl

theorem point_not_mem {t : Text} (h : ∀ c ∈ t, c.isDigit = true) : '.' ∉ t := fun hm =>
  absurd (h '.' hm) (by decide)

/-- A decimal by its significant digits. -/
theorem nearest?_eq_significand (d : Decimal) :
    d.nearest? = nearest? ⟨d.significand, d.pointAt - d.significant.length⟩ := by
  obtain ⟨k, hk⟩ := d.exists_zeros
  have hdigits : d.digits = d.significand * tenPow k := by
    rw [← Text.ofDigitChars_ofNat d.digits, ← hk, ofDigitChars_append_zeros, significand]
  have hpoint : d.pointAt - d.significant.length = d.exponent + k := by
    have hlen : (Text.ofNat d.digits).length = d.significant.length + k := by
      rw [← hk, List.length_append, zeros, List.length_replicate]
    rw [pointAt, hlen]
    omega
  rw [hpoint, ← nearest?_shift, ← hdigits]

/-! ## The positional notation -/

theorem mem_positional {d : Decimal} {c : Char} (h : c ∈ d.positional []) :
    c.isDigit = true ∨ c = '.' := by
  have hsig : ∀ c ∈ d.significant, c.isDigit = true := fun _ => isDigit_of_mem_significant
  have hzero : ∀ k, ∀ c ∈ zeros k, c.isDigit = true := fun _ _ => isDigit_of_mem_zeros
  unfold positional at h
  dsimp only at h
  split at h
  · simp only [List.mem_append, or_assoc] at h
    rcases h with h | h | h
    · have hzeropoint : Text.All (fun c => c.isDigit || c == '.') "0.".toList := by decide
      have hc := hzeropoint c h
      rwa [Bool.or_eq_true, beq_iff_eq] at hc
    · exact .inl (hzero _ c h)
    · exact .inl (hsig c h)
  split at h
  · simp only [List.mem_append, List.not_mem_nil, or_false] at h
    exact .inl (h.elim (hsig c) (hzero _ c))
  · simp only [List.mem_append, List.mem_cons] at h
    rcases h with h | h | h
    · exact .inl (hsig c (List.mem_of_mem_take h))
    · exact .inr h
    · exact .inl (hsig c (List.mem_of_mem_drop h))

/-- The positional notation is read as the same number. -/
theorem nearest?_ofPositional (d : Decimal) :
    (ofPositional (d.positional [])).nearest? = d.nearest? := by
  have hsig : '.' ∉ d.significant := point_not_mem fun _ => isDigit_of_mem_significant
  have hzero : ∀ k, '.' ∉ zeros k := fun _ => point_not_mem fun _ => isDigit_of_mem_zeros
  rw [nearest?_eq_significand d]
  unfold positional
  dsimp only
  generalize d.pointAt = before
  split
  · rename_i hle
    -- nothing stands before the point but a zero
    have hsplit : "0.".toList ++ zeros (-before).toNat ++ d.significant
        = ['0'] ++ '.' :: (zeros (-before).toNat ++ d.significant) := by
      rw [List.append_assoc]
      rfl
    rw [hsplit, ofPositional_point (by decide)]
    have hvalue : Nat.ofDigitChars 10 (['0'] ++ (zeros (-before).toNat ++ d.significant)) 0
        = d.significand := by
      rw [← List.append_assoc, show ['0'] = zeros 1 from rfl, zeros, zeros, List.replicate_append_replicate]
      exact ofDigitChars_zeros_append _ _
    have hlen : -((zeros (-before).toNat ++ d.significant).length : Int)
        = before - d.significant.length := by
      rw [List.length_append, zeros, List.length_replicate]
      omega
    rw [hvalue, hlen]
  split
  · rename_i hle
    have hpoint : '.' ∉ d.significant ++ zeros (before.toNat - d.significant.length) ++ [] := by
      simp [hsig, hzero]
    have hexp : (0 : Int) + (before.toNat - d.significant.length : Nat)
        = before - d.significant.length := by omega
    rw [ofPositional_whole hpoint, List.append_nil, ofDigitChars_append_zeros, nearest?_shift, hexp]
    rfl
  · have htake : '.' ∉ d.significant.take before.toNat := fun h => hsig (List.mem_of_mem_take h)
    have hexp : -((d.significant.drop before.toNat).length : Int)
        = before - d.significant.length := by
      rw [List.length_drop]
      omega
    rw [ofPositional_point htake, List.take_append_drop, hexp]
    rfl

/-- The shortest digits in positional notation are read as the magnitude they were made from. -/
theorem nearest?_ofPositional_shortest (tie : Tie) (m : Magnitude) :
    (ofPositional ((m.shortest tie).positional [])).nearest? = some m := by
  rw [nearest?_ofPositional, Magnitude.nearest?_shortest]

end Decimal

namespace Binary64

/-! ## The same number -/

theorem same_iff_place {a b : Binary64} : a.same b = true ↔ a.place = b.place ∧ a.place ≠ none := by
  unfold same related
  cases a.place <;> cases b.place <;> simp

theorem same_self {x : Binary64} (h : x ≠ .nan) : x.same x = true := by
  rw [same_iff_place]
  refine ⟨rfl, ?_⟩
  cases x with
  | nan => exact absurd rfl h
  | infinite s => cases s <;> exact Option.some_ne_none _
  | finite s m => cases s <;> exact Option.some_ne_none _

theorem same_trans {x y z : Binary64} (h : x.same y = true) (h' : y.same z = true) :
    x.same z = true := by
  rw [same_iff_place] at h h' ⊢
  exact ⟨h.1.trans h'.1, h.2⟩

theorem same_comm (x y : Binary64) : x.same y = y.same x := by
  rw [Bool.eq_iff_iff, same_iff_place, same_iff_place]
  exact ⟨fun h => ⟨h.1.symm, h.1 ▸ h.2⟩, fun h => ⟨h.1.symm, h.1 ▸ h.2⟩⟩

theorem same_congr {x y : Binary64} (h : x.same y = true) (z : Binary64) : x.same z = y.same z := by
  rw [Bool.eq_iff_iff]
  refine ⟨fun hx => ?_, same_trans h⟩
  rw [same_comm] at h
  exact same_trans h hx

theorem same_zero_iff {s : Bool} {m : Magnitude} : (finite s m).same zero = true ↔ m.units = 0 := by
  cases s <;> simp [same, related, place, zero, Magnitude.zero]

theorem place_finite_ne_infinite {s t : Bool} {m : Magnitude} :
    (finite s m).place ≠ (infinite t).place := by
  have := m.representable.1
  intro h
  cases s <;> cases t <;> have := Option.some.inj h <;> omega

theorem sign_eq_of_place_eq {s t : Bool} (h : (infinite s).place = (infinite t).place) : s = t := by
  have : 0 < unitsLimit := twoPow_pos _
  cases s <;> cases t
  · rfl
  · have := Option.some.inj h
    omega
  · have := Option.some.inj h
    omega
  · rfl

/-- At one place stand only the two zeros, and otherwise one number. -/
theorem eq_or_zeros_of_place_eq {s t : Bool} {m n : Magnitude}
    (h : (finite s m).place = (finite t n).place) :
    (s = t ∧ m = n) ∨ (m.units = 0 ∧ n.units = 0) := by
  rw [Magnitude.ext_iff]
  cases s <;> cases t <;> have := Option.some.inj h <;>
    simp only [true_and, reduceCtorEq, false_and, false_or] <;> omega

/-! ## Numerals -/

theorem numeral_of_same_zero {x : Binary64} (h : x.same zero = true) : x.numeral = "0".toList := by
  rw [numeral, if_pos h]

/-- The four ways in which a number is spelled: its sign, and the text behind the sign. -/
inductive Spelled : Binary64 → Bool → Text → Prop where
  | nan : Spelled .nan false "NaN".toList
  | infinite (s : Bool) : Spelled (.infinite s) s "inf".toList
  | zero (s : Bool) (m : Magnitude) : m.units = 0 → Spelled (.finite s m) false "0".toList
  | finite (s : Bool) (m : Magnitude) : m.units ≠ 0 →
    Spelled (.finite s m) s ((m.shortest .upward).positional [])

theorem exists_spelled (x : Binary64) : ∃ s u, Spelled x s u := by
  cases x with
  | nan => exact ⟨_, _, .nan⟩
  | infinite s => exact ⟨_, _, .infinite s⟩
  | finite s m =>
    by_cases h : m.units = 0
    · exact ⟨_, _, .zero s m h⟩
    · exact ⟨_, _, .finite s m h⟩

namespace Spelled

variable {x : Binary64} {s : Bool} {u : Text}

theorem numeral_eq (h : Spelled x s u) : x.numeral = sign s ++ u := by
  cases h with
  | nan => rfl
  | infinite s =>
    have hz : ¬ (Binary64.infinite s).same .zero = true := fun hs =>
      place_finite_ne_infinite (same_iff_place.1 hs).1.symm
    rw [numeral, if_neg hz, plain]
  | zero s m h0 => exact numeral_of_same_zero (same_zero_iff.2 h0)
  | finite s m h0 =>
    have hz : ¬ (Binary64.finite s m).same .zero = true := fun hs => h0 (same_zero_iff.1 hs)
    rw [numeral, if_neg hz, plain, if_neg h0]

/-- Behind the sign stand a word, or digits and a point. -/
theorem mem_body (h : Spelled x s u) {c : Char} (hc : c ∈ u) : c.isAlphanum = true ∨ c = '.' := by
  cases h with
  | nan =>
    have hword : Text.All Char.isAlphanum "NaN".toList := by decide
    exact .inl (hword c hc)
  | infinite s =>
    have hword : Text.All Char.isAlphanum "inf".toList := by decide
    exact .inl (hword c hc)
  | zero s m h0 =>
    have hzero : Text.All Char.isAlphanum "0".toList := by decide
    exact .inl (hzero c hc)
  | finite s m h0 =>
    rcases Decimal.mem_positional hc with hd | rfl
    · exact .inl (by rw [Char.isAlphanum, hd, Bool.or_true])
    · exact .inr rfl

theorem minus_not_mem_body (h : Spelled x s u) : '-' ∉ u := fun hc => by
  rcases h.mem_body hc with hd | hp
  · exact absurd hd (by decide)
  · exact absurd hp (by decide)

end Spelled

/-- A numeral that is read as zero is none of a magnitude above zero. -/
theorem positional_ne {tie : Tie} {m : Magnitude} {t : Text} (hm : m.units ≠ 0)
    (ht : (Decimal.ofPositional t).digits = 0) : (m.shortest tie).positional [] ≠ t := by
  intro h
  have hread := Decimal.nearest?_ofPositional_shortest tie m
  rw [h] at hread
  generalize Decimal.ofPositional t = d at ht hread
  obtain ⟨n, e⟩ := d
  cases ht
  rw [Magnitude.nearest?_zero_digits] at hread
  cases hread
  exact hm rfl

/-- Magnitudes with one numeral are equal. -/
theorem magnitude_eq_of_positional_eq {tie : Tie} {m n : Magnitude}
    (h : (m.shortest tie).positional [] = (n.shortest tie).positional []) : m = n := by
  have hm := Decimal.nearest?_ofPositional_shortest tie m
  rw [h, Decimal.nearest?_ofPositional_shortest] at hm
  exact (Option.some.inj hm).symm

theorem letter_not_mem_positional {d : Decimal} {c : Char} (h : c.isDigit = false) (hp : c ≠ '.') :
    c ∉ d.positional [] := fun hc => by
  rcases Decimal.mem_positional hc with hd | he
  · rw [h] at hd
    cases hd
  · exact hp he

/-- Numbers spelled alike are the same, if they are numbers at all. -/
theorem Spelled.same {x y : Binary64} {s t : Bool} {u v : Text} (hx : Spelled x s u)
    (hy : Spelled y t v) (hnan : x ≠ .nan) (hs : s = t) (hu : u = v) : x.same y = true := by
  have hzero : (Decimal.ofPositional "0".toList).digits = 0 := by decide
  have hinf : ∀ d : Decimal, d.positional [] ≠ "inf".toList := fun d h =>
    letter_not_mem_positional (d := d) (c := 'i') rfl (by decide) (h ▸ by decide)
  have hword : ∀ d : Decimal, d.positional [] ≠ "NaN".toList := fun d h =>
    letter_not_mem_positional (d := d) (c := 'N') rfl (by decide) (h ▸ by decide)
  cases hx with
  | nan => exact absurd rfl hnan
  | infinite s =>
    cases hy with
    | nan => exact absurd hu (by decide)
    | infinite t =>
      rw [hs]
      exact same_self nofun
    | zero t n h0 => exact absurd hu (by decide)
    | finite t n h0 => exact absurd hu.symm (hinf _)
  | zero s m h0 =>
    cases hy with
    | nan => exact absurd hu (by decide)
    | infinite t => exact absurd hu (by decide)
    | zero t n h1 =>
      have hm := same_zero_iff (s := s).2 h0
      have hn := same_zero_iff (s := t).2 h1
      rw [same_comm] at hn
      exact same_trans hm hn
    | finite t n h1 => exact absurd hu.symm (positional_ne h1 hzero)
  | finite s m h0 =>
    cases hy with
    | nan => exact absurd hu (hword _)
    | infinite t => exact absurd hu (hinf _)
    | zero t n h1 => exact absurd hu (positional_ne h0 hzero)
    | finite t n h1 =>
      rw [hs, magnitude_eq_of_positional_eq hu]
      exact same_self nofun

/-! ## Numerals and numbers -/

/-- The characters of a numeral. Letters occur only in the words for infinity and not-a-number. -/
theorem mem_numeral {x : Binary64} {c : Char} (h : c ∈ x.numeral) :
    c.isAlphanum = true ∨ c = '.' ∨ c = '-' := by
  obtain ⟨s, u, hx⟩ := exists_spelled x
  rw [hx.numeral_eq, List.mem_append] at h
  rcases h with h | h
  · cases s
    · cases h
    · exact .inr (.inr (List.mem_singleton.1 h))
  · exact (hx.mem_body h).imp_right .inl

theorem numeral_ne_nil (x : Binary64) : x.numeral ≠ [] := by
  obtain ⟨s, u, hx⟩ := exists_spelled x
  rw [hx.numeral_eq]
  intro h
  have hu := (List.append_eq_nil_iff.1 h).2
  cases hx with
  | nan => cases hu
  | infinite s => cases hu
  | zero s m h0 => cases hu
  | finite s m h0 => exact positional_ne h0 (by decide) hu

/-- The sign and the rest of a numeral can be told apart. -/
theorem sign_append_inj {s t : Bool} {u v : Text} (hu : '-' ∉ u) (hv : '-' ∉ v)
    (h : sign s ++ u = sign t ++ v) : s = t ∧ u = v := by
  cases s <;> cases t
  · exact ⟨rfl, h⟩
  · have h : u = '-' :: v := h
    exact absurd List.mem_cons_self (h ▸ hu)
  · have h : '-' :: u = v := h
    exact absurd List.mem_cons_self (h.symm ▸ hv)
  · exact ⟨rfl, List.append_cancel_left h⟩

/-- The same number has one numeral, whatever the sign of a zero. -/
theorem numeral_congr {x y : Binary64} (h : x.same y = true) : x.numeral = y.numeral := by
  have hplace := (same_iff_place.1 h).1
  cases x with
  | nan => exact absurd rfl (same_iff_place.1 h).2
  | infinite s =>
    cases y with
    | nan => exact absurd hplace (same_iff_place.1 h).2
    | infinite t => rw [sign_eq_of_place_eq hplace]
    | finite t n => exact absurd hplace.symm place_finite_ne_infinite
  | finite s m =>
    cases y with
    | nan => exact absurd hplace (same_iff_place.1 h).2
    | infinite t => exact absurd hplace place_finite_ne_infinite
    | finite t n =>
      obtain ⟨hs, hm⟩ | ⟨hm, hn⟩ := eq_or_zeros_of_place_eq hplace
      · rw [hs, hm]
      · rw [numeral_of_same_zero (same_zero_iff.2 hm), numeral_of_same_zero (same_zero_iff.2 hn)]

/-- A numeral determines its number. -/
theorem numeral_eq_iff {x y : Binary64} (hnan : x ≠ .nan) : x.numeral = y.numeral ↔ x.same y = true := by
  refine ⟨fun h => ?_, numeral_congr⟩
  obtain ⟨s, u, hx⟩ := exists_spelled x
  obtain ⟨t, v, hy⟩ := exists_spelled y
  rw [hx.numeral_eq, hy.numeral_eq] at h
  obtain ⟨hs, hu⟩ := sign_append_inj hx.minus_not_mem_body hy.minus_not_mem_body h
  exact hx.same hy hnan hs hu

end Binary64

end Watermark
