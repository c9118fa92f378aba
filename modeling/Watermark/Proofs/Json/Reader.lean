import Watermark.Json.Reader
import Watermark.Proofs.Text

/-!
# Running readers

A reader runs on a text and gives a value with what remains of the text, or stops at a fault.

* `run_bind_of_ok`: behind a reader that succeeds the next one runs on what remains;
* `run_bind_eq_ok_iff`: two readers in a row succeed exactly if both do;
* `run_peek`, `run_expect`, `run_word`: the steps of `Watermark.Json.Reader` on a text whose front is known.

`Reads r w v` says what `r` makes of the text `w` of a value wherever it stands, with blanks before it and any text
behind it that does not prolong a number.
-/

namespace Watermark.Json

variable {α β : Type}

/-- What readers give for a text can be compared. -/
instance decidableEqExcept [DecidableEq α] : DecidableEq (Except Fault α)
  | .error e, .error e' => decidable_of_iff (e = e') ⟨congrArg _, Except.error.inj⟩
  | .ok a, .ok b => decidable_of_iff (a = b) ⟨congrArg _, Except.ok.inj⟩
  | .error _, .ok _ => isFalse nofun
  | .ok _, .error _ => isFalse nofun

/-! ## Two readers in a row -/

theorem run_bind_of_ok {r : Reader α} {k : α → Reader β} {t u : Text} {a : α} (h : r.run t = .ok (a, u)) :
    (r >>= k).run t = (k a).run u := by
  rw [StateT.run_bind, h]
  rfl

theorem run_bind_of_error {r : Reader α} {k : α → Reader β} {t : Text} {e : Fault} (h : r.run t = .error e) :
    (r >>= k).run t = .error e := by
  rw [StateT.run_bind, h]
  rfl

theorem bind_eq_ok_iff {x : Except Fault α} {f : α → Except Fault β} {b : β} :
    x >>= f = .ok b ↔ ∃ a, x = .ok a ∧ f a = .ok b := by
  cases x with
  | error e => exact ⟨nofun, fun ⟨_, h, _⟩ => nomatch h⟩
  | ok a =>
    constructor
    · intro h
      exact ⟨a, rfl, h⟩
    · rintro ⟨_, ⟨rfl⟩, h⟩
      exact h

theorem run_bind_eq_ok_iff {r : Reader α} {k : α → Reader β} {t v : Text} {b : β} :
    (r >>= k).run t = .ok (b, v) ↔ ∃ a u, r.run t = .ok (a, u) ∧ (k a).run u = .ok (b, v) := by
  rw [StateT.run_bind, bind_eq_ok_iff]
  exact ⟨fun ⟨p, hr, hk⟩ => ⟨p.1, p.2, hr, hk⟩, fun ⟨a, u, hr, hk⟩ => ⟨(a, u), hr, hk⟩⟩

theorem run_map_eq_ok_iff {r : Reader α} {f : α → β} {t v : Text} {b : β} :
    (f <$> r).run t = .ok (b, v) ↔ ∃ a, r.run t = .ok (a, v) ∧ f a = b := by
  rw [map_eq_pure_bind, run_bind_eq_ok_iff]
  constructor
  · rintro ⟨a, u, hr, hk⟩
    cases hk
    exact ⟨a, hr, rfl⟩
  · rintro ⟨a, hr, rfl⟩
    exact ⟨a, v, hr, rfl⟩

/-! ## Results without their fault -/

theorem toOption_eq_some_iff {x : Except Fault α} {a : α} : x.toOption = some a ↔ x = .ok a := by
  cases x with
  | error e => exact ⟨nofun, nofun⟩
  | ok b => exact ⟨fun h => congrArg Except.ok (Option.some.inj h), fun h => congrArg some (Except.ok.inj h)⟩

theorem toOption_map (f : α → β) (x : Except Fault α) : (x.map f).toOption = x.toOption.map f := by
  cases x <;> rfl

theorem toOption_run_bind (r : Reader α) (k : α → Reader β) (t : Text) :
    ((r >>= k).run t).toOption = (r.run t).toOption.bind fun p => ((k p.1).run p.2).toOption := by
  rw [StateT.run_bind]
  cases r.run t <;> rfl

theorem toOption_run_map (r : Reader α) (f : α → β) (t : Text) :
    ((f <$> r).run t).toOption = (r.run t).toOption.map fun p => (f p.1, p.2) := by
  rw [StateT.run_map]
  cases r.run t <;> rfl

/-! ## Single steps -/

theorem run_skipBlanks {gap t : Text} (hgap : gap.All isBlank) (ht : ∀ c ∈ t.head?, isBlank c = false) :
    skipBlanks.run (gap ++ t) = .ok ((), t) := by
  show Except.ok ((), (gap ++ t).dropWhile isBlank) = _
  rw [Text.dropWhile_append_of_stop hgap ht]

theorem run_peek {gap t : Text} {c : Char} (hgap : gap.All isBlank) (hc : isBlank c = false) :
    peek.run (gap ++ c :: t) = .ok (c, c :: t) := by
  have hblank : ∀ d ∈ (c :: t).head?, isBlank d = false := by
    rintro d ⟨rfl⟩
    exact hc
  rw [peek, run_bind_of_ok (run_skipBlanks hgap hblank)]
  rfl

theorem run_peek_cons {c : Char} (hc : isBlank c = false) (t : Text) : peek.run (c :: t) = .ok (c, c :: t) :=
  run_peek .nil hc

theorem run_expect {gap t : Text} {c : Char} (hgap : gap.All isBlank) (hc : isBlank c = false) :
    (expect c).run (gap ++ c :: t) = .ok ((), t) := by
  rw [expect, run_bind_of_ok (run_peek hgap hc), if_pos (by simp)]
  rfl

theorem run_expect_cons {c : Char} (hc : isBlank c = false) (t : Text) : (expect c).run (c :: t) = .ok ((), t) :=
  run_expect .nil hc

theorem run_word (w t : Text) : (word w).run (w ++ t) = .ok ((), t) := by
  induction w with
  | nil => rfl
  | cons c w ih =>
    have hlook : look?.run (c :: w ++ t) = .ok (some c, c :: w ++ t) := rfl
    rw [word, run_bind_of_ok hlook]
    show (if (c == c) = true then (do advance; word w) else throw .malformed : Reader Unit).run (c :: w ++ t) = _
    rw [if_pos (by simp)]
    exact ih

/-! ## Blanks in front -/

/-- Blanks in front make no difference. -/
def IgnoresBlanks (r : Reader α) : Prop := ∀ gap t, gap.All isBlank → r.run (gap ++ t) = r.run t

theorem ignoresBlanks_skipBlanks : IgnoresBlanks skipBlanks := by
  intro gap t hgap
  show Except.ok ((), (gap ++ t).dropWhile isBlank) = Except.ok ((), t.dropWhile isBlank)
  rw [List.dropWhile_append_of_pos hgap]

theorem IgnoresBlanks.bind {r : Reader α} (h : IgnoresBlanks r) (k : α → Reader β) : IgnoresBlanks (r >>= k) := by
  intro gap t hgap
  rw [StateT.run_bind, StateT.run_bind, h gap t hgap]

theorem ignoresBlanks_peek : IgnoresBlanks peek := ignoresBlanks_skipBlanks.bind _

theorem ignoresBlanks_expect (c : Char) : IgnoresBlanks (expect c) := ignoresBlanks_peek.bind _

/-! ## Whole texts -/

/-- Behind the value of a text there are only blanks. -/
theorem run_of_readAll {r : Reader α} {t : Text} {a : α} (h : readAll r t = .ok a) :
    ∃ last, last.All isBlank ∧ r.run t = .ok (a, last) := by
  obtain ⟨⟨b, last⟩, hrun, h⟩ := bind_eq_ok_iff.1 h
  dsimp only at h
  split at h
  · rename_i hempty
    cases h
    exact ⟨last, List.dropWhile_eq_nil_iff.1 (List.isEmpty_iff.1 hempty), hrun⟩
  · cases h

/-! ## Values -/

/-- A character that could prolong a number. -/
def prolongs (c : Char) : Bool := c.isDigit || c == '.' || c == 'e' || c == 'E'

/-- A text that does not prolong a number before it. -/
def Ends (t : Text) : Prop := ∀ c ∈ t.head?, prolongs c = false

theorem ends_nil : Ends [] := nofun

theorem ends_cons {c : Char} {t : Text} (h : prolongs c = false) : Ends (c :: t) := by
  rintro d ⟨rfl⟩
  exact h

theorem not_prolongs_of_isBlank {c : Char} (h : isBlank c = true) : prolongs c = false := by
  simp only [isBlank, Bool.or_eq_true, beq_iff_eq] at h
  rcases h with ((rfl | rfl) | rfl) | rfl <;> decide

theorem ends_append {gap t : Text} (hgap : gap.All isBlank) (ht : Ends t) : Ends (gap ++ t) := by
  cases gap with
  | nil => exact ht
  | cons c gap => exact ends_cons (not_prolongs_of_isBlank (hgap c List.mem_cons_self))

/-- `r` makes `v` of the text `w` of a value wherever it stands, and leaves what is behind it. -/
def Reads (r : Reader α) (w : Text) (v : Except Fault α) : Prop :=
  ∀ gap rest, gap.All isBlank → Ends rest → r.run (gap ++ (w ++ rest)) = v.map fun a => (a, rest)

namespace Reads

variable {r : Reader α} {w : Text} {v : Except Fault α}

theorem map (f : α → β) (h : Reads r w v) : Reads (f <$> r) w (v.map f) := by
  intro gap rest hgap hrest
  rw [StateT.run_map, h gap rest hgap hrest]
  cases v <;> rfl

/-- A text that holds the value and nothing else. -/
theorem readAll (h : Reads r w v) : readAll r w = v := by
  have hrun := h [] [] nofun ends_nil
  rw [List.nil_append, List.append_nil] at hrun
  rw [Json.readAll, hrun]
  cases v <;> rfl

end Reads

end Watermark.Json
