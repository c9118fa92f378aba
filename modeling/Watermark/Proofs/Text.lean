import Mathlib.Algebra.Group.Nat.Defs
import Mathlib.Data.List.DropRight
import Watermark.Text

/-!
# Lemmas about text

What the proofs need of lists of characters beyond the library: texts whose characters are all of one kind
(`Text.All`), what trimming leaves, numerals of whole numbers, cutting a text at a character
(`Text.splitOn_intercalate_iff`), and texts that end where a character stands that they cannot hold
(`Text.append_cons_inj`). `Text.dropTrailing` is the library's `List.rdropWhile`.
-/

namespace Watermark.Text

/-! ## Characters of one kind -/

/-- All characters are in `p`. -/
def All (p : Char → Bool) (t : Text) : Prop := ∀ c ∈ t, p c = true

instance (p : Char → Bool) (t : Text) : Decidable (All p t) :=
  decidable_of_iff (t.all p = true) List.all_eq_true

namespace All

variable {p q : Char → Bool} {c : Char} {s t : Text}

theorem nil : All p [] := nofun

theorem append (hs : All p s) (ht : All p t) : All p (s ++ t) := List.forall_mem_append.2 ⟨hs, ht⟩

theorem cons (hc : p c = true) (ht : All p t) : All p (c :: t) := List.forall_mem_cons.2 ⟨hc, ht⟩

theorem mono (h : ∀ c, p c = true → q c = true) (ht : All p t) : All q t := fun c hc => h c (ht c hc)

theorem not_mem (ht : All p t) (hc : p c = false) : c ∉ t := fun h => by
  rw [ht c h] at hc
  cases hc

end All

/-! ## Trimming -/

theorem dropTrailing_eq (p : Char → Bool) (t : Text) : dropTrailing p t = t.rdropWhile p := rfl

/-- What is dropped at the end of a text. -/
theorem exists_dropTrailing_append (p : Char → Bool) (t : Text) : ∃ s, dropTrailing p t ++ s = t ∧ All p s :=
  ⟨t.rtakeWhile p, List.rdropWhile_append_rtakeWhile, fun _ => List.mem_rtakeWhile_imp⟩

theorem dropTrailing_eq_self {p : Char → Bool} {t : Text} (h : ∀ c ∈ t, p c = false) : dropTrailing p t = t :=
  List.rdropWhile_eq_self_iff.2 fun hne => Bool.eq_false_iff.1 (h _ (List.getLast_mem hne))

/-- An end in `p` makes no difference. -/
theorem dropTrailing_append_of_all {p : Char → Bool} {s t : Text} (h : All p t) :
    dropTrailing p (s ++ t) = dropTrailing p s := by
  simp only [dropTrailing_eq]
  induction t using List.reverseRecOn with
  | nil => rw [List.append_nil]
  | append_singleton t c ih =>
    rw [← List.append_assoc, List.rdropWhile_concat_pos _ _ _ (h c (by simp)), ih fun d hd => h d (by simp [hd])]

/-- Nothing is dropped up to a character outside `p`. -/
theorem dropTrailing_append_of_not {p : Char → Bool} {s t : Text} {c : Char} (h : p c = false) :
    dropTrailing p (s ++ c :: t) = s ++ c :: dropTrailing p t := by
  simp only [dropTrailing_eq]
  induction t using List.reverseRecOn with
  | nil => rw [List.rdropWhile_concat_neg _ _ _ (Bool.eq_false_iff.1 h), List.rdropWhile_nil]
  | append_singleton t d ih =>
    rw [← List.cons_append, ← List.append_assoc, List.rdropWhile_concat, List.rdropWhile_concat, ih]
    split
    · rfl
    · rw [List.append_assoc, List.cons_append]

/-- Only blank text trims to nothing. -/
theorem trim_eq_nil_iff {t : Text} : trim t = [] ↔ allBlank t = true := by
  rw [trim, dropTrailing_eq, List.rdropWhile_eq_nil_iff, ← List.dropWhile_eq_nil_iff, List.dropWhile_idempotent,
    List.dropWhile_eq_nil_iff, allBlank, List.all_eq_true]

/-- Nothing is trimmed where nothing is blank. -/
theorem trim_eq_self {t : Text} (h : ∀ c ∈ t, isBlank c = false) : trim t = t := by
  have hstart : t.dropWhile isBlank = t := by
    cases t with
    | nil => rfl
    | cons c t => rw [List.dropWhile_cons_of_neg (by simp [h c List.mem_cons_self])]
  rw [trim, hstart, dropTrailing_eq_self h]

/-- What trimming takes away on both sides is blank. -/
theorem exists_append_trim (t : Text) : ∃ s r, s ++ trim t ++ r = t ∧ All isBlank s ∧ All isBlank r := by
  obtain ⟨r, hr, hblank⟩ := exists_dropTrailing_append isBlank (t.dropWhile isBlank)
  refine ⟨t.takeWhile isBlank, r, ?_, fun _ => List.mem_takeWhile_imp, hblank⟩
  rw [List.append_assoc, trim, hr, List.takeWhile_append_dropWhile]

/-- A selection without blanks does not depend on the blanks around a text. -/
theorem filter_trim {p : Char → Bool} (h : ∀ c, isBlank c = true → p c = false) (t : Text) :
    (trim t).filter p = t.filter p := by
  obtain ⟨s, r, ht, hs, hr⟩ := exists_append_trim t
  have hnone : ∀ {u : Text}, All isBlank u → u.filter p = [] := fun hu =>
    List.filter_eq_nil_iff.2 fun c hc => Bool.eq_false_iff.1 (h c (hu c hc))
  calc (trim t).filter p
      = (s ++ trim t ++ r).filter p := by
        rw [List.filter_append, List.filter_append, hnone hs, hnone hr, List.nil_append, List.append_nil]
    _ = t.filter p := by rw [ht]

theorem mem_dropTrailing_iff {p : Char → Bool} {t : Text} {c : Char} (hc : p c = false) :
    c ∈ dropTrailing p t ↔ c ∈ t := by
  refine ⟨fun h => (List.rdropWhile_prefix p t).subset h, fun h => ?_⟩
  obtain ⟨s, hs, hall⟩ := exists_dropTrailing_append p t
  rw [← hs, List.mem_append] at h
  exact h.resolve_right (hall.not_mem hc)

theorem all_takeWhile (p : Char → Bool) (t : Text) : All p (t.takeWhile p) := fun _ => List.mem_takeWhile_imp

theorem mem_dropWhile_iff {p : Char → Bool} {t : Text} {c : Char} (hc : p c = false) :
    c ∈ t.dropWhile p ↔ c ∈ t := by
  refine ⟨fun h => List.dropWhile_subset _ h, fun h => ?_⟩
  have ht : t.takeWhile p ++ t.dropWhile p = t := List.takeWhile_append_dropWhile
  rw [← ht, List.mem_append] at h
  exact h.resolve_left ((all_takeWhile p t).not_mem hc)

/-- Characters of one kind end where one of another kind stands. -/
theorem takeWhile_append_of_stop {p : Char → Bool} {s t : Text} (hs : All p s) (ht : ∀ c ∈ t.head?, p c = false) :
    (s ++ t).takeWhile p = s := by
  rw [List.takeWhile_append_of_pos hs]
  cases t with
  | nil => simp
  | cons c t => simp [ht c rfl]

theorem dropWhile_append_of_stop {p : Char → Bool} {s t : Text} (hs : All p s) (ht : ∀ c ∈ t.head?, p c = false) :
    (s ++ t).dropWhile p = t := by
  rw [List.dropWhile_append_of_pos hs]
  cases t with
  | nil => rfl
  | cons c t => simp [ht c rfl]

/-! ## Numerals -/

theorem isDigit_of_mem_ofNat {n : Nat} {c : Char} (h : c ∈ ofNat n) : c.isDigit = true :=
  Nat.isDigit_of_mem_toDigits (by decide) (by decide) h

theorem ofDigitChars_ofNat (n : Nat) : Nat.ofDigitChars 10 (ofNat n) 0 = n :=
  Nat.ofDigitChars_ten_toDigits

theorem ofNat_injective {m n : Nat} (h : ofNat m = ofNat n) : m = n := by
  rw [← ofDigitChars_ofNat m, h, ofDigitChars_ofNat]

theorem head?_ofNat_ne_zero {n : Nat} (h : n ≠ 0) : (ofNat n).head? ≠ some '0' := by
  induction n using Nat.strongRecOn with
  | ind n ih =>
    unfold ofNat at ih ⊢
    rw [Nat.toDigits_eq_if (by decide)]
    split
    · simpa using h
    · -- the first digit is the one of the number without its last digit
      have hfirst := ih (n / 10) (by omega) (by omega)
      obtain ⟨c, t, ht⟩ := List.exists_cons_of_ne_nil (Nat.toDigits_ne_nil (n := n / 10) (b := 10))
      rw [ht] at hfirst ⊢
      exact hfirst

theorem le_ofDigitChars (t : Text) (n : Nat) : n ≤ Nat.ofDigitChars 10 t n := by
  induction t generalizing n with
  | nil => simp
  | cons c t ih =>
    rw [Nat.ofDigitChars_cons]
    have := ih (10 * n + (c.toNat - '0'.toNat))
    omega

/-- So many digits denote a number below that power of ten. -/
theorem ofDigitChars_lt {t : Text} (h : All Char.isDigit t) (n : Nat) :
    Nat.ofDigitChars 10 t n < (n + 1) * 10 ^ t.length := by
  induction t generalizing n with
  | nil => simp
  | cons c t ih =>
    have hc := h c List.mem_cons_self
    have hdigit : c.toNat - '0'.toNat ≤ 9 := by
      simp only [Char.isDigit, Bool.and_eq_true, decide_eq_true_eq] at hc
      have hle : c.toNat ≤ 57 := hc.2
      have hzero : '0'.toNat = 48 := rfl
      omega
    rw [Nat.ofDigitChars_cons, List.length_cons, Nat.pow_succ]
    calc Nat.ofDigitChars 10 t (10 * n + (c.toNat - '0'.toNat))
        < (10 * n + (c.toNat - '0'.toNat) + 1) * 10 ^ t.length := ih (fun d hd => h d (List.mem_cons_of_mem _ hd)) _
      _ ≤ (10 * (n + 1)) * 10 ^ t.length := Nat.mul_le_mul_right _ (by omega)
      _ = (n + 1) * (10 ^ t.length * 10) := by ac_rfl

theorem mem_ofInt {n : Int} {c : Char} (h : c ∈ ofInt n) : c.isDigit = true ∨ c = '-' := by
  cases n with
  | ofNat n => exact .inl (isDigit_of_mem_ofNat h)
  | negSucc n =>
    rcases List.mem_cons.1 h with rfl | h
    · exact .inr rfl
    · exact .inl (isDigit_of_mem_ofNat h)

theorem ofInt_injective {m n : Int} (h : ofInt m = ofInt n) : m = n := by
  have hminus : ∀ k, '-' ∉ ofNat k := fun k hm => absurd (isDigit_of_mem_ofNat hm) (by decide)
  cases m with
  | ofNat m =>
    cases n with
    | ofNat n => rw [ofNat_injective h]
    | negSucc n =>
      have h : ofNat m = '-' :: ofNat (n + 1) := h
      exact absurd (h ▸ List.mem_cons_self) (hminus m)
  | negSucc m =>
    cases n with
    | ofNat n =>
      have h : '-' :: ofNat (m + 1) = ofNat n := h
      exact absurd (h ▸ List.mem_cons_self) (hminus n)
    | negSucc n =>
      have hnat := ofNat_injective (List.cons.inj h).2
      rw [Nat.succ.inj hnat]

/-! ## Cutting at a character -/

theorem mem_intercalate {x y : Char} {ps : List Text} (h : y ∈ List.intercalate [x] ps) :
    y = x ∨ ∃ p ∈ ps, y ∈ p := by
  induction ps with
  | nil => simp at h
  | cons p ps ih =>
    cases ps with
    | nil => exact .inr ⟨p, List.mem_cons_self, by simpa using h⟩
    | cons q ps =>
      rw [List.intercalate_cons_cons, List.mem_append, List.mem_append, List.mem_singleton] at h
      rcases h with (h | h) | h
      · exact .inr ⟨p, List.mem_cons_self, h⟩
      · exact .inl h
      · exact (ih h).imp_right fun ⟨r, hr, hy⟩ => ⟨r, List.mem_cons_of_mem _ hr, hy⟩

theorem not_mem_intercalate_iff {x y : Char} (hxy : y ≠ x) {ps : List Text} :
    y ∉ List.intercalate [x] ps ↔ ∀ p ∈ ps, y ∉ p := by
  induction ps with
  | nil => simp
  | cons p ps ih =>
    cases ps with
    | nil => simp
    | cons q ps =>
      rw [List.intercalate_cons_cons, List.forall_mem_cons, ← ih, List.mem_append, List.mem_append,
        List.mem_singleton, not_or, not_or]
      exact ⟨fun h => ⟨h.1.1, h.2⟩, fun h => ⟨⟨h.1, hxy⟩, h.2⟩⟩

theorem not_mem_of_mem_splitOn {x : Char} {t p : Text} (h : p ∈ t.splitOn x) : x ∉ p := by
  induction t generalizing p with
  | nil =>
    rw [List.splitOn_nil, List.mem_singleton] at h
    rw [h]
    exact List.not_mem_nil
  | cons c t ih =>
    rw [List.splitOn_cons_eq_if_modifyHead] at h
    split at h
    · rcases List.mem_cons.1 h with rfl | h
      · exact List.not_mem_nil
      · exact ih h
    · rename_i hc
      obtain ⟨q, qs, hq⟩ := List.exists_cons_of_ne_nil (List.splitOn_ne_nil x t)
      rw [hq] at h ih
      rcases List.mem_cons.1 h with rfl | h
      · rw [List.mem_cons, not_or]
        exact ⟨fun hx => hc (by simp [hx]), ih List.mem_cons_self⟩
      · exact ih (List.mem_cons_of_mem _ h)

/-- Texts put together with `x` between them are read back just if `x` is in none of them. -/
theorem splitOn_intercalate_iff {x : Char} {ps : List Text} (h : ps ≠ []) :
    (List.intercalate [x] ps).splitOn x = ps ↔ ∀ p ∈ ps, x ∉ p := by
  constructor
  · intro heq p hp
    rw [← heq] at hp
    exact not_mem_of_mem_splitOn hp
  · intro hx
    exact List.splitOn_intercalate x hx h

/-! ## Texts with an end -/

/-- Two texts without `c` end at the first `c`. -/
theorem append_cons_inj {c : Char} {x x' y y' : Text} (hx : c ∉ x) (hx' : c ∉ x')
    (h : x ++ c :: y = x' ++ c :: y') : x = x' ∧ y = y' := by
  induction x generalizing x' with
  | nil =>
    cases x' with
    | nil => exact ⟨rfl, (List.cons.inj h).2⟩
    | cons a x' => exact absurd ((List.cons.inj h).1 ▸ List.mem_cons_self) hx'
  | cons a x ih =>
    rw [List.mem_cons, not_or] at hx
    cases x' with
    | nil => exact absurd (List.cons.inj h).1.symm hx.1
    | cons b x' =>
      rw [List.mem_cons, not_or] at hx'
      obtain ⟨hab, hrest⟩ := List.cons.inj h
      obtain ⟨hxx, hyy⟩ := ih hx.2 hx'.2 hrest
      exact ⟨by rw [hab, hxx], hyy⟩

/-- The same where `c` and what follows may be missing. -/
theorem append_inj_of_stop {c : Char} {x x' y y' : Text} (hx : c ∉ x) (hx' : c ∉ x')
    (hy : y = [] ∨ ∃ t, y = c :: t) (hy' : y' = [] ∨ ∃ t, y' = c :: t) (h : x ++ y = x' ++ y') :
    x = x' ∧ y = y' := by
  rcases hy with rfl | ⟨t, rfl⟩
  · rcases hy' with rfl | ⟨t', rfl⟩
    · rw [List.append_nil, List.append_nil] at h
      exact ⟨h, rfl⟩
    · rw [List.append_nil] at h
      exact absurd (h ▸ List.mem_append_right _ List.mem_cons_self) hx
  · rcases hy' with rfl | ⟨t', rfl⟩
    · rw [List.append_nil] at h
      exact absurd (h ▸ List.mem_append_right _ List.mem_cons_self) hx'
    · obtain ⟨hxx, htt⟩ := append_cons_inj hx hx' h
      exact ⟨hxx, by rw [htt]⟩

end Watermark.Text
