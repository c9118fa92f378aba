import Watermark.Proofs.Characters
import Watermark.Proofs.Number.Order
import Watermark.Settings.Sanitize

/-!
# What sanitized settings hold

No number of sanitized settings is not-a-number, and a time is 0 or above it. The input folder is not empty, and an
extension is made of characters that mean nothing to a script.
-/

namespace Watermark

namespace Binary64

theorem one_ne_nan : one ≠ .nan := by
  unfold one ratio ofUnits
  split <;> nofun

theorem finiteOrZero_positive (x : Binary64) : x.finiteOrZero.isPositive = true ∨ x.finiteOrZero = zero := by
  unfold finiteOrZero
  split
  · exact x.orZero_positive
  · exact .inr rfl

theorem positiveOrOne_ne_nan (x : Binary64) : x.positiveOrOne ≠ .nan := by
  unfold positiveOrOne
  split
  · rename_i h
    rw [Bool.and_eq_true] at h
    exact ne_nan_of_isFinite h.1
  · exact one_ne_nan

theorem asOpacity_ne_nan (x : Binary64) : x.asOpacity ≠ .nan := by
  unfold asOpacity clamp
  split
  · split
    · exact nofun
    · split
      · exact one_ne_nan
      · exact ne_nan_of_isFinite ‹_›
  · exact one_ne_nan

end Binary64

theorem Extension.all_normalize (t : Text) : (normalize t).All allowed := by
  have hdefault : Settings.defaultExtension.All allowed := by decide
  unfold normalize
  split
  · exact hdefault
  · exact fun c hc => (List.mem_filter.1 (List.dropWhile_subset _ hc)).2

theorem Extension.isWordChar_of_allowed (c : Char) (h : allowed c = true) : Text.isWordChar c = true := by
  simp only [allowed, Bool.or_eq_true, beq_iff_eq] at h
  rcases h with ((ha | rfl) | rfl) | rfl
  · exact Text.isAlphanumOr_of_isAlphanum ha
  · decide
  · decide
  · decide

namespace Settings

theorem folderOr_ne_nil {fallback t : Text} (h : fallback ≠ []) : folderOr fallback t ≠ [] := by
  unfold folderOr
  split
  · exact h
  · rintro rfl
    exact absurd rfl ‹_›

theorem inputFolder_sanitized_ne_nil (s : Settings) : s.sanitized.inputFolder ≠ [] :=
  folderOr_ne_nil (by decide)

theorem word_extension (s : Settings) : s.sanitized.extension.All Text.isWordChar :=
  (Extension.all_normalize s.extension).mono Extension.isWordChar_of_allowed

theorem inert_extension (s : Settings) : s.sanitized.extension.Inert :=
  s.word_extension.mono Text.isInert_of_isWordChar

end Settings

end Watermark
