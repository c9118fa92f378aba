import Watermark.Proofs.Json.Grammar
import Watermark.Proofs.Json.Quoted

/-!
# What is read of a string or a number is one

The readers of the grammar's pieces take nothing else from the front of a text than such a piece:

* `exists_of_peek`, `exists_of_expect`, `eq_of_word`: blanks and characters;
* `Quoted.exists_of_chars`: behind an opening quote, pieces and the closing quote, under each of the two ways to read
  escapes (`Quoted.Sound`);
* `Token.exists_of_scan`: a spelling of the number that was scanned.

These are the converse of reading what the grammar allows.
-/

namespace Watermark.Json

variable {t u rest : Text}

/-! ## Steps -/

theorem exists_of_peek {c : Char} (h : peek.run t = .ok (c, u)) :
    ∃ gap v, gap.All isBlank ∧ t = gap ++ u ∧ u = c :: v := by
  have hsplit : t.takeWhile isBlank ++ t.dropWhile isBlank = t := List.takeWhile_append_dropWhile
  have hrun : (t.dropWhile isBlank).head?.elim (.error Fault.truncated) (fun c => .ok (c, t.dropWhile isBlank))
      = Except.ok (c, u) := by
    rw [← h]
    cases hhead : (t.dropWhile isBlank).head? <;> simp [peek, skipBlanks, look?, hhead, StateT.run_bind] <;> rfl
  cases hrest : t.dropWhile isBlank with
  | nil =>
    rw [hrest] at hrun
    cases hrun
  | cons d v =>
    rw [hrest] at hrun hsplit
    cases hrun
    exact ⟨t.takeWhile isBlank, v, Text.all_takeWhile _ _, hsplit.symm, rfl⟩

theorem exists_of_expect {c : Char} (h : (expect c).run t = .ok ((), rest)) :
    ∃ gap, gap.All isBlank ∧ t = gap ++ c :: rest := by
  obtain ⟨d, v, hpeek, htake⟩ := run_bind_eq_ok_iff.1 h
  obtain ⟨gap, v, hgap, rfl, rfl⟩ := exists_of_peek hpeek
  split at htake
  · rename_i hd
    cases htake
    exact ⟨gap, hgap, by rw [eq_of_beq hd]; rfl⟩
  · cases htake

theorem eq_of_word {w : Text} (h : (word w).run t = .ok ((), rest)) : t = w ++ rest := by
  induction w generalizing t with
  | nil =>
    cases h
    rfl
  | cons c w ih =>
    obtain ⟨d, v, hlook, h⟩ := run_bind_eq_ok_iff.1 h
    cases hlook
    cases t with
    | nil => cases h
    | cons d t =>
      have h : (if (c == d) = true then (do advance; word w) else throw .malformed : Reader Unit).run (d :: t)
        = .ok ((), rest) := h
      split at h
      · rename_i hd
        have h : (word w).run t = .ok ((), rest) := h
        rw [eq_of_beq hd, ih h, List.cons_append]
      · cases h

/-! ## Strings -/

namespace Quoted

theorem exists_of_codeUnit {n : Nat} (h : codeUnit t = .ok n) :
    ∃ a b c d r, t = a :: b :: c :: d :: r ∧ codeUnit [a, b, c, d] = .ok n := by
  unfold codeUnit at h
  split at h
  · exact ⟨_, _, _, _, _, rfl, h⟩
  · cases h

theorem exists_of_trailingUnit {n : Nat} (h : trailingUnit t = .ok n) :
    ∃ a b c d r, t = '\\' :: 'u' :: a :: b :: c :: d :: r ∧ codeUnit [a, b, c, d] = .ok n := by
  unfold trailingUnit at h
  split at h
  · cases h
  · cases h
  · obtain ⟨m, hunit, hresult⟩ := bind_eq_ok_iff.1 h
    obtain ⟨a, b, c, d, r, rfl, hunit⟩ := exists_of_codeUnit hunit
    split at hresult
    · cases hresult
      exact ⟨a, b, c, d, r, rfl, hunit⟩
    · cases hresult
  · cases h

/-- A way to read escapes that takes the characters of one piece or more. -/
def Sound (escape : Text → Except Fault (Char × Nat)) : Prop :=
  ∀ t c n, escape t = .ok (c, n) →
    ∃ v r, t = v ++ r ∧ v.length = n ∧ ∀ w ps, Pieces w ps → ∃ qs, Pieces ('\\' :: (v ++ w)) qs

theorem sound_escape : Sound escape := by
  intro t c n h
  unfold escape at h
  split at h
  · cases h
  · obtain ⟨m, hunit, hresult⟩ := bind_eq_ok_iff.1 h
    obtain ⟨x, y, z, k, r, rfl, hunit⟩ := exists_of_codeUnit hunit
    split at hresult
    · cases hresult
    · split at hresult
      · -- the other half of the pair is a piece of its own
        obtain ⟨l, htrailing, hpair⟩ := bind_eq_ok_iff.1 hresult
        obtain ⟨x', y', z', k', r', hr, hunit'⟩ := exists_of_trailingUnit htrailing
        have hr : r = '\\' :: 'u' :: x' :: y' :: z' :: k' :: r' := hr
        subst hr
        obtain ⟨-, rfl⟩ := Prod.mk.inj (Except.ok.inj hpair)
        exact ⟨['u', x, y, z, k, '\\', 'u', x', y', z', k'], r', rfl, rfl,
          fun w ps hw => ⟨_, .unit hunit (.unit hunit' hw)⟩⟩
      · cases hresult
        exact ⟨['u', x, y, z, k], r, rfl, rfl, fun w ps hw => ⟨_, .unit hunit hw⟩⟩
  · split at h
    · rename_i d hletter
      cases h
      exact ⟨[_], _, rfl, rfl, fun w ps hw => ⟨_, .letter hletter hw⟩⟩
    · cases h

theorem sound_looseEscape : Sound looseEscape := by
  intro t c n h
  unfold looseEscape at h
  split at h
  · obtain ⟨m, hunit, hresult⟩ := bind_eq_ok_iff.1 h
    obtain ⟨x, y, z, k, r, rfl, hunit⟩ := exists_of_codeUnit hunit
    cases hresult
    exact ⟨['u', x, y, z, k], r, rfl, rfl, fun w ps hw => ⟨_, .unit hunit hw⟩⟩
  · exact sound_escape _ c n h

section
variable {escape : Text → Except Fault (Char × Nat)}

/-- What was read up to the closing quote is made of pieces. -/
theorem exists_of_chars (hescape : Sound escape) {s : Text} (h : chars escape 0 t = .ok (s, rest)) :
    ∃ w ps, Pieces w ps ∧ t = w ++ '"' :: rest := by
  -- an escape takes many characters at once, so the induction is on the length
  induction hn : t.length using Nat.strongRecOn generalizing t s with
  | ind n ih =>
    subst hn
    unfold chars at h
    split at h
    · cases h
    · rename_i hpassed
      cases hpassed
    · cases h
      exact ⟨[], [], .nil, rfl⟩
    · rename_i u
      obtain ⟨⟨c, n⟩, hread, hresult⟩ := bind_eq_ok_iff.1 h
      obtain ⟨⟨s', rest'⟩, hchars, hresult⟩ := bind_eq_ok_iff.1 hresult
      cases hresult
      obtain ⟨v, r, rfl, rfl, hprolong⟩ := hescape _ c n hread
      have hchars : chars escape 0 r = .ok (s', rest) := chars_append v r ▸ hchars
      obtain ⟨w, ps, hw, rfl⟩ := ih r.length (by simp only [List.length_cons, List.length_append]; omega) hchars rfl
      obtain ⟨qs, hqs⟩ := hprolong w ps hw
      exact ⟨_, qs, hqs, by simp⟩
    · rename_i c r hquote hbackslash _
      split at h
      · cases h
      · rename_i hcontrol
        obtain ⟨⟨s', rest'⟩, hchars, hresult⟩ := bind_eq_ok_iff.1 h
        cases hresult
        obtain ⟨w, ps, hw, rfl⟩ := ih r.length (by simp) hchars rfl
        exact ⟨c :: w, _, .self hquote hbackslash (Nat.not_lt.1 hcontrol) hw, rfl⟩

end

theorem exists_of_read {s : Text} (h : read.run t = .ok (s, rest)) : ∃ w ps, Pieces w ps ∧ t = w ++ '"' :: rest :=
  exists_of_chars sound_escape h

theorem exists_of_skip (h : skip.run t = .ok ((), rest)) : ∃ w ps, Pieces w ps ∧ t = w ++ '"' :: rest := by
  obtain ⟨⟨s, rest'⟩, hchars, hresult⟩ := bind_eq_ok_iff.1 h
  cases hresult
  exact exists_of_chars sound_looseEscape hchars

end Quoted

/-! ## Numbers -/

namespace Token

theorem exists_of_oneOf? {cs : Text} {found : Option Char} (h : (oneOf? cs).run t = .ok (found, rest)) :
    (found = none ∧ t = rest) ∨ ∃ c ∈ cs, found = some c ∧ t = c :: rest := by
  obtain ⟨c?, v, hlook, hresult⟩ := run_bind_eq_ok_iff.1 h
  cases hlook
  cases t with
  | nil =>
    cases hresult
    exact .inl ⟨rfl, rfl⟩
  | cons c t =>
    have hresult : (if cs.contains c = true then (do advance; return some c) else return none :
      Reader (Option Char)).run (c :: t) = .ok (found, rest) := hresult
    split at hresult
    · rename_i hmem
      cases hresult
      exact .inr ⟨c, List.contains_iff_mem.1 hmem, rfl, rfl⟩
    · cases hresult
      exact .inl ⟨rfl, rfl⟩

theorem digits_of_someDigits {ds : Text} (h : someDigits.run t = .ok (ds, rest)) : Digits ds ∧ t = ds ++ rest := by
  obtain ⟨c?, v, hlook, hresult⟩ := run_bind_eq_ok_iff.1 h
  cases hlook
  cases t with
  | nil => cases hresult
  | cons c t =>
    have hresult : (if c.isDigit = true then digits else throw .malformed : Reader Text).run (c :: t)
      = .ok (ds, rest) := hresult
    split at hresult
    · rename_i hc
      cases hresult
      refine ⟨⟨?_, Text.all_takeWhile _ _⟩, List.takeWhile_append_dropWhile.symm⟩
      rw [List.takeWhile_cons_of_pos hc]
      exact List.cons_ne_nil _ _
    · cases hresult

theorem digits_of_wholeDigits {ds : Text} (h : wholeDigits.run t = .ok (ds, rest)) :
    Digits ds ∧ (ds.head? = some '0' → ds = ['0']) ∧ t = ds ++ rest := by
  obtain ⟨ds', v, hdigits, hresult⟩ := run_bind_eq_ok_iff.1 h
  obtain ⟨hds, rfl⟩ := digits_of_someDigits hdigits
  split at hresult
  · cases hresult
  · rename_i hlone
    cases hresult
    refine ⟨hds, fun hhead => ?_, rfl⟩
    cases ds with
    | nil => cases hhead
    | cons c ds =>
      cases hhead
      cases ds with
      | nil => rfl
      | cons d ds => exact absurd rfl (hlone d ds)

theorem exists_of_scanFraction {fraction : Option Text} (h : scanFraction.run t = .ok (fraction, rest)) :
    (∀ ds ∈ fraction, Digits ds) ∧ t = fractionText fraction ++ rest := by
  obtain ⟨point, v, hpoint, hresult⟩ := run_bind_eq_ok_iff.1 h
  obtain ⟨rfl, rfl⟩ | ⟨c, hc, rfl, rfl⟩ := exists_of_oneOf? hpoint
  · cases hresult
    exact ⟨nofun, rfl⟩
  · obtain ⟨ds, hdigits, rfl⟩ := run_map_eq_ok_iff.1 hresult
    obtain ⟨hds, rfl⟩ := digits_of_someDigits hdigits
    rw [List.mem_singleton.1 hc]
    refine ⟨?_, rfl⟩
    rintro _ ⟨rfl⟩
    exact hds

theorem exists_of_scanExponent {exponent : Option (Bool × Text)} (h : scanExponent.run t = .ok (exponent, rest)) :
    (∀ p ∈ exponent, Digits p.2) ∧ ∃ x, ExponentSpells exponent x ∧ t = x ++ rest := by
  obtain ⟨mark, v, hmark, hresult⟩ := run_bind_eq_ok_iff.1 h
  obtain ⟨rfl, rfl⟩ | ⟨c, hc, rfl, rfl⟩ := exists_of_oneOf? hmark
  · cases hresult
    exact ⟨nofun, [], .none, rfl⟩
  · obtain ⟨sign, v, hsign, hresult⟩ := run_bind_eq_ok_iff.1 hresult
    obtain ⟨ds, u, hdigits, hresult⟩ := run_bind_eq_ok_iff.1 hresult
    cases hresult
    obtain ⟨hds, rfl⟩ := digits_of_someDigits hdigits
    have hall : ∀ p ∈ some (sign == some '-', ds), Digits p.2 := by
      rintro _ ⟨rfl⟩
      exact hds
    refine ⟨hall, ?_⟩
    obtain ⟨rfl, rfl⟩ | ⟨s, hs, rfl, rfl⟩ := exists_of_oneOf? hsign
    · exact ⟨c :: ds, .unsigned hc, rfl⟩
    · simp only [List.mem_cons, List.not_mem_nil, or_false] at hs
      rcases hs with rfl | rfl
      · have hspells : ExponentSpells (some (false, ds)) (c :: '+' :: ds) := .signed hc
        exact ⟨_, hspells, rfl⟩
      · have hspells : ExponentSpells (some (true, ds)) (c :: '-' :: ds) := .signed hc
        exact ⟨_, hspells, rfl⟩

/-- What was scanned is a spelling of the number. -/
theorem exists_of_scan {token : Token} (h : scan.run t = .ok (token, rest)) : ∃ w, token.Spells w ∧ t = w ++ rest := by
  rw [scan_eq] at h
  obtain ⟨minus, u, hminus, h⟩ := run_bind_eq_ok_iff.1 h
  obtain ⟨whole, v, hwhole, h⟩ := run_bind_eq_ok_iff.1 h
  obtain ⟨fraction, x, hfraction, h⟩ := run_bind_eq_ok_iff.1 h
  obtain ⟨exponent, y, hexponent, h⟩ := run_bind_eq_ok_iff.1 h
  cases h
  obtain ⟨hdigits, hlone, rfl⟩ := digits_of_wholeDigits hwhole
  obtain ⟨hfractions, rfl⟩ := exists_of_scanFraction hfraction
  obtain ⟨hexponents, text, hspells, rfl⟩ := exists_of_scanExponent hexponent
  have hwell : WellFormed ⟨minus.isSome, whole, fraction, exponent⟩ := ⟨hdigits, hlone, hfractions, hexponents⟩
  refine ⟨_, .mk hwell hspells, ?_⟩
  obtain ⟨rfl, rfl⟩ | ⟨c, hc, rfl, rfl⟩ := exists_of_oneOf? hminus
  · simp [Binary64.sign]
  · simp [Binary64.sign, List.mem_singleton.1 hc]

end Token

end Watermark.Json
