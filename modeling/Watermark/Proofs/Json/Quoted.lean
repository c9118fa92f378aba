import Watermark.Json.Quoted
import Watermark.Proofs.Json.Reader

/-!
# Strings are read as they were written

`Quoted.encode` escapes a character in one of three ways: a letter behind a backslash, the two last hexadecimal
digits behind `\u00`, or not at all. Each is read as the character again (`chars_encodeChar`), so by induction a whole
string is (`run_read_encode`), whatever its characters are.
-/

namespace Watermark.Json.Quoted

/-- A character has been read: it comes before the others. -/
def before (c : Char) (p : Text × Text) : Text × Text := (c :: p.1, p.2)

section
variable {escape : Text → Except Fault (Char × Nat)}

/-- What belongs to an escape that has been read is passed over. -/
theorem chars_append (w rest : Text) : chars escape w.length (w ++ rest) = chars escape 0 rest := by
  induction w with
  | nil => rfl
  | cons c w ih =>
    rw [List.length_cons, List.cons_append, chars]
    exact ih

/-- An escape stands for its character. -/
theorem chars_escape (w rest : Text) {c : Char} (h : escape (w ++ rest) = .ok (c, w.length)) :
    chars escape 0 ('\\' :: (w ++ rest)) = (chars escape 0 rest).map (before c) := by
  rw [chars, h]
  show (chars escape w.length (w ++ rest) >>= fun p => pure (c :: p.1, p.2)) = _
  rw [chars_append]
  cases chars escape 0 rest <;> rfl

theorem chars_of_error {t : Text} {e : Fault} (h : escape t = .error e) : chars escape 0 ('\\' :: t) = .error e := by
  rw [chars, h]
  rfl

/-- A character that stands for itself. -/
theorem chars_self {c : Char} (hquote : c ≠ '"') (hbackslash : c ≠ '\\') (hcontrol : ¬ c.toNat < 0x20) (rest : Text) :
    chars escape 0 (c :: rest) = (chars escape 0 rest).map (before c) := by
  rw [chars, if_neg hcontrol]
  · cases chars escape 0 rest <;> rfl
  · exact hquote
  · exact hbackslash

end

/-! ## Escapes -/

theorem ne_u_of_simpleEscape {c d : Char} (h : simpleEscape? c = some d) : c ≠ 'u' := by
  rintro rfl
  cases h

/-- A letter behind a backslash. -/
theorem escape_letter {c d : Char} (h : simpleEscape? c = some d) (rest : Text) : escape (c :: rest) = .ok (d, 1) := by
  unfold escape
  split
  · rename_i heq
    cases heq
  · rename_i heq
    cases heq
    exact absurd rfl (ne_u_of_simpleEscape h)
  · rename_i heq
    cases heq
    rw [h]

/-- A code unit that is a character by itself. -/
theorem escape_unit {w : Text} {u : Nat} (h : codeUnit w = .ok u) (htrailing : isTrailing u = false)
    (hleading : isLeading u = false) : escape ('u' :: w) = .ok (Char.ofNat u, 5) := by
  rw [escape, h]
  show (if isTrailing u = true then throw Fault.malformed
    else if isLeading u = true then _ else pure (Char.ofNat u, 5)) = _
  rw [htrailing, hleading, if_neg Bool.false_ne_true, if_neg Bool.false_ne_true]
  rfl

theorem codeUnit_hexDigits {u : Nat} (h : u < 0x100) (rest : Text) :
    codeUnit ('0' :: '0' :: hexDigit (u / 16) :: hexDigit (u % 16) :: rest) = .ok u := by
  have hzero : hexValue? '0' = some 0 := by decide
  rw [codeUnit, hzero, hexValue?_hexDigit (by omega), hexValue?_hexDigit (by omega)]
  show Except.ok (((0 * 16 + 0) * 16 + u / 16) * 16 + u % 16) = _
  congr 1
  omega

/-- A control character by its code unit. -/
theorem chars_codeUnit {c : Char} (h : c.toNat < 0x20) (rest : Text) :
    chars escape 0 ("\\u00".toList ++ [hexDigit (c.toNat / 16), hexDigit (c.toNat % 16)] ++ rest)
      = (chars escape 0 rest).map (before c) := by
  have hunit := codeUnit_hexDigits (u := c.toNat) (by omega) rest
  generalize hexDigit (c.toNat / 16) = high at hunit ⊢
  generalize hexDigit (c.toNat % 16) = low at hunit ⊢
  have htrailing : isTrailing c.toNat = false := by
    rw [isTrailing, Bool.and_eq_false_iff]
    exact .inl (decide_eq_false (by omega))
  have hleading : isLeading c.toNat = false := by
    rw [isLeading, Bool.and_eq_false_iff]
    exact .inl (decide_eq_false (by omega))
  have hescape := escape_unit hunit htrailing hleading
  rw [Char.ofNat_toNat] at hescape
  exact chars_escape ['u', '0', '0', high, low] rest hescape

/-- A character is read from its escape. -/
theorem chars_encodeChar (c : Char) (rest : Text) :
    chars escape 0 (encodeChar c ++ rest) = (chars escape 0 rest).map (before c) := by
  unfold encodeChar
  -- seven characters have a letter of their own
  iterate 7
    split
    · rename_i h
      exact h ▸ chars_escape [_] rest (escape_letter rfl rest)
  split
  · rename_i h
    exact chars_codeUnit h rest
  · rename_i hquote hbackslash _ _ _ _ _ hcontrol
    exact chars_self hquote hbackslash hcontrol rest

theorem encode_append (t rest : Text) : encode t ++ rest = '"' :: (t.flatMap encodeChar ++ '"' :: rest) := by
  simp [encode]

/-- A string behind its opening quote is read up to the closing one. -/
theorem run_read_encode (t rest : Text) :
    read.run (t.flatMap encodeChar ++ '"' :: rest) = .ok (t, rest) := by
  show chars escape 0 (t.flatMap encodeChar ++ '"' :: rest) = _
  induction t with
  | nil => rfl
  | cons c t ih =>
    rw [List.flatMap_cons, List.append_assoc, chars_encodeChar, ih]
    rfl

end Watermark.Json.Quoted
