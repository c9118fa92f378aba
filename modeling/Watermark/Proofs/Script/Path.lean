import Mathlib.Data.List.Induction
import Watermark.Proofs.Characters
import Watermark.Script.Batch

/-!
# Escaped paths

A layout joins and trims folders that are already escaped. Trimming never cuts an escape in half, since an escaped
character ends in itself and no separator is escaped (`escape_dropTrailing`). So the path of an output file is the
escaped folder, one separator and the name of the file (`outputFile_ofSettings`).
-/

namespace Watermark

namespace Dialect

/-- An escaped character is the character behind its escape, and separators have none. -/
theorem exists_escapeChar (d : Dialect) (c : Char) :
    ∃ e, d.escapeChar c = e ++ [c] ∧ (d.isSeparator c = true → e = []) := by
  cases d with
  | windows =>
    by_cases h : c = '%'
    · exact ⟨['%'], by simp [escapeChar, h], by simp [isSeparator, h]⟩
    · exact ⟨[], by simp [escapeChar, h], fun _ => rfl⟩
  | posix =>
    by_cases h : isSpecial c = true
    · refine ⟨['\\'], by simp [escapeChar, h], fun hs => ?_⟩
      rw [isSeparator, beq_iff_eq] at hs
      rw [hs] at h
      exact absurd h (by decide)
    · exact ⟨[], by simp [escapeChar, h], fun _ => rfl⟩

theorem escape_percent (t : Text) : windows.escape ('%' :: t) = '%' :: '%' :: windows.escape t := escape_cons ..

theorem escape_of_ne_percent {c : Char} (h : c ≠ '%') (t : Text) : windows.escape (c :: t) = c :: windows.escape t := by
  have hone : windows.escapeChar c = [c] := by simp [escapeChar, h]
  rw [escape_cons, hone, List.singleton_append]

/-- A text is its own escape if all its characters are. -/
theorem escape_eq_self {d : Dialect} {t : Text} (h : ∀ c ∈ t, d.escapeChar c = [c]) : d.escape t = t := by
  induction t with
  | nil => rfl
  | cons c r ih =>
    rw [escape_cons, h c List.mem_cons_self, ih fun c hc => h c (List.mem_cons_of_mem _ hc)]
    rfl

/-- What no script interprets needs no escape. -/
theorem escape_of_inert (d : Dialect) {t : Text} (h : t.Inert) : d.escape t = t := by
  refine escape_eq_self fun c hc => ?_
  have hne : ∀ x, Text.isInert x = false → c ≠ x := fun x hx he => h.not_mem hx (he ▸ hc)
  cases d with
  | windows => simp [escapeChar, hne '%' (by decide)]
  | posix =>
    simp [escapeChar, isSpecial, hne '\\' (by decide), hne '"' (by decide), hne '$' (by decide),
      hne '`' (by decide)]

theorem escape_of_separators {d : Dialect} {t : Text} (h : t.All d.isSeparator) : d.escape t = t := by
  refine escape_eq_self fun c hc => ?_
  obtain ⟨e, he, hnil⟩ := d.exists_escapeChar c
  rw [he, hnil (h c hc), List.nil_append]

theorem escape_ne_nil {d : Dialect} {t : Text} (h : t ≠ []) : d.escape t ≠ [] := by
  obtain ⟨c, r, rfl⟩ := List.exists_cons_of_ne_nil h
  obtain ⟨e, he, -⟩ := d.exists_escapeChar c
  rw [escape_cons, he]
  simp

/-- Trimming separators and escaping commute. -/
theorem escape_dropTrailing (d : Dialect) (t : Text) :
    (d.escape t).dropTrailing d.isSeparator = d.escape (t.dropTrailing d.isSeparator) := by
  induction t using List.reverseRecOn with
  | nil => rfl
  | append_singleton r c ih =>
    by_cases hc : d.isSeparator c = true
    · have hall : Text.All d.isSeparator [c] := .cons hc .nil
      rw [escape_append, escape_of_separators hall, Text.dropTrailing_append_of_all hall,
        Text.dropTrailing_append_of_all hall, ih]
    · -- the last character stays, and it is the last one of the escaped text as well
      obtain ⟨e, he, -⟩ := d.exists_escapeChar c
      have hc : d.isSeparator c = false := by simpa using hc
      have hescape : d.escape (r ++ [c]) = d.escape r ++ e ++ [c] := by
        rw [escape_append, escape_cons, escape_nil, he, List.append_nil, List.append_assoc]
      rw [hescape, Text.dropTrailing_append_of_not hc, Text.dropTrailing_append_of_not hc]
      exact hescape.symm

theorem join_ne_nil {d : Dialect} {base child : Text} (h : base ≠ []) : d.join base child ≠ [] := by
  rw [join, if_neg (by simpa using h)]
  simp

/-- Joining below a folder that is not empty. -/
theorem join_of_ne_nil {d : Dialect} {base child : Text} (h : base ≠ []) :
    d.join base child
      = base.dropTrailing d.isSeparator ++ d.separator :: child.dropWhile d.isSeparator := by
  rw [join, if_neg (by simpa using h)]

/-- The path of an output file: the escaped folder, a separator, the script's own variable and the extension. -/
theorem outputFile_ofSettings {d : Dialect} {s : Settings} (h : s.inputFolder ≠ []) :
    d.outputFile (.ofSettings d s)
      = d.escape ((d.join s.inputFolder s.outputFolder).dropTrailing d.isSeparator)
        ++ d.separator :: (d.currentBase ++ '.' :: d.escape s.extension) := by
  have hfolder : (Layout.ofSettings d s).outputFolder ≠ [] := escape_ne_nil (join_ne_nil h)
  have hbase : ∀ t, (d.currentBase ++ t).dropWhile d.isSeparator = d.currentBase ++ t := by
    cases d <;> exact fun _ => rfl
  rw [outputFile, join_of_ne_nil hfolder, hbase, Layout.ofSettings, escape_dropTrailing]

end Dialect

end Watermark
