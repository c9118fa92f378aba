import Watermark.Proofs.Number.Numeral

/-!
# Kinds of characters

Texts of a command are made of letters, digits and a few more characters: words and numbers of the kind
`Text.isWordChar`, expressions of the kind `Text.isPlain`. Both kinds lie within `Text.isInert`, the characters that
mean nothing to a script inside double quotes. A numeral is of each kind (`Binary64.all_numeral`).
-/

namespace Watermark

namespace Text

/-- A letter, a digit, or one of a few more characters. -/
def isAlphanumOr (cs : List Char) (c : Char) : Bool := c.isAlphanum || cs.contains c

/-- A kind with letters and digits includes another one, if it includes what that one has besides them. -/
theorem of_isAlphanumOr {p : Char → Bool} {cs : List Char} {c : Char}
    (halnum : ∀ c : Char, c.isAlphanum = true → p c = true) (hcs : All p cs) (h : isAlphanumOr cs c = true) :
    p c = true := by
  rw [isAlphanumOr, Bool.or_eq_true, List.contains_iff_mem] at h
  exact h.elim (halnum c) (hcs c)

theorem isAlphanumOr_of_isAlphanum {cs : List Char} {c : Char} (h : c.isAlphanum = true) :
    isAlphanumOr cs c = true := by
  rw [isAlphanumOr, h, Bool.true_or]

theorem isAlphanumOr_of_isDigit {cs : List Char} {c : Char} (h : c.isDigit = true) :
    isAlphanumOr cs c = true := by
  rw [isAlphanumOr, Char.isAlphanum, h, Bool.or_true, Bool.true_or]

/-- The blanks lie below and above the letters and digits. -/
theorem not_isBlank_of_isAlphanum {c : Char} (h : c.isAlphanum = true) : isBlank c = false := by
  have hrange : 48 ≤ c.toNat ∧ c.toNat ≤ 122 := by
    have hbetween : ∀ {low high : UInt32}, low ≤ c.val → c.val ≤ high → 48 ≤ low.toNat → high.toNat ≤ 122 →
        48 ≤ c.toNat ∧ c.toNat ≤ 122 := fun hlow hhigh h48 h122 =>
      ⟨Nat.le_trans h48 (UInt32.le_iff_toNat_le.1 hlow), Nat.le_trans (UInt32.le_iff_toNat_le.1 hhigh) h122⟩
    have hcases : (c.isUpper = true ∨ c.isLower = true) ∨ c.isDigit = true := by
      rw [← Bool.or_eq_true, ← Bool.or_eq_true]
      exact h
    rcases hcases with (hupper | hlower) | hdigit
    · have hrange := of_decide_eq_true hupper
      exact hbetween hrange.1 hrange.2 (by decide) (by decide)
    · have hrange := Bool.and_eq_true_iff.1 hlower
      exact hbetween (of_decide_eq_true hrange.1) (of_decide_eq_true hrange.2) (by decide) (by decide)
    · have hrange := Bool.and_eq_true_iff.1 hdigit
      exact hbetween (of_decide_eq_true hrange.1) (of_decide_eq_true hrange.2) (by decide) (by decide)
  have houtside : ∀ r ∈ blankRanges, r.2 < 48 ∨ 122 < r.1 := by decide
  rw [isBlank, List.any_eq_false]
  intro r hr
  have := houtside r hr
  simp only [Bool.and_eq_true, decide_eq_true_eq]
  omega

/-- The characters of words and numbers. -/
abbrev isWordChar : Char → Bool := isAlphanumOr ['-', '_', ':', '.']

/-- The characters of expressions. -/
abbrev isPlain : Char → Bool :=
  isAlphanumOr ['=', ',', '*', ':', '-', '.', '/', '\'', '(', ')']

/-- The characters that have no meaning to a script inside double quotes, as far as commands use them. -/
abbrev isInert : Char → Bool :=
  isAlphanumOr ['=', ',', '*', ':', '-', '.', '/', '\'', '(', ')', '[', ']', ';', '_']

abbrev Plain (t : Text) : Prop := All isPlain t

abbrev Inert (t : Text) : Prop := All isInert t

theorem isInert_of_isWordChar (c : Char) : isWordChar c = true → isInert c = true :=
  of_isAlphanumOr (fun _ => isAlphanumOr_of_isAlphanum) (by decide)

theorem isInert_of_isPlain (c : Char) : isPlain c = true → isInert c = true :=
  of_isAlphanumOr (fun _ => isAlphanumOr_of_isAlphanum) (by decide)

theorem plain_ofNat (n : Nat) : Plain (ofNat n) := fun _ hc => isAlphanumOr_of_isDigit (isDigit_of_mem_ofNat hc)

theorem plain_ofInt (n : Int) : Plain (ofInt n) := fun c hc => by
  rcases mem_ofInt hc with hd | rfl
  · exact isAlphanumOr_of_isDigit hd
  · decide

end Text

/-- A numeral is made of letters, digits and whatever kind has the point and the minus sign. -/
theorem Binary64.all_numeral {cs : List Char} (hp : '.' ∈ cs) (hm : '-' ∈ cs) (x : Binary64) :
    x.numeral.All (Text.isAlphanumOr cs) := fun c hc => by
  rw [Text.isAlphanumOr, Bool.or_eq_true, List.contains_iff_mem]
  rcases mem_numeral hc with ha | rfl | rfl
  · exact .inl ha
  · exact .inr hp
  · exact .inr hm

theorem Binary64.plain_numeral (x : Binary64) : x.numeral.Plain := x.all_numeral (by decide) (by decide)

theorem Binary64.word_numeral (x : Binary64) : x.numeral.All Text.isWordChar :=
  x.all_numeral (by decide) (by decide)

end Watermark
