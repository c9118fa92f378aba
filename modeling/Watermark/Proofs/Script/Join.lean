import Watermark.Proofs.Script.Path

/-!
# Joining paths

A join trims its base at the end and its child at the start, and where the base is empty it is the trimmed child. A
text is made of separators only, or it has a first character that is none (`Text.all_or_first_not`), and in either
case it is plain what trimming leaves of it.

* `dropWhile_join`: trimming the start of a joined path trims the start of its base;
* `join_assoc`: which two of three paths are joined first makes no difference;
* `escape_join`: escaping goes through a join, since separators are not escaped and no escape begins with one;
* `join_seam`: where base and child meet, one separator is left of all that stood there.
-/

namespace Watermark

namespace Text

variable {p : Char → Bool} {s t : Text} {c : Char}

/-- A text is in `p` as a whole, or up to a first character. -/
theorem all_or_first_not (p : Char → Bool) (t : Text) :
    All p t ∨ ∃ (s : Text) (c : Char) (r : Text), t = s ++ c :: r ∧ All p s ∧ p c = false := by
  have ht : t.takeWhile p ++ t.dropWhile p = t := List.takeWhile_append_dropWhile
  have hhead := List.head?_dropWhile_not p t
  cases h : t.dropWhile p with
  | nil => exact .inl (List.dropWhile_eq_nil_iff.1 h)
  | cons c r =>
    rw [h] at ht hhead
    refine .inr ⟨t.takeWhile p, c, r, ht.symm, all_takeWhile p t, ?_⟩
    simpa using hhead

/-- A text with a character outside `p` has a last one. -/
theorem exists_last_not (h : ∃ x ∈ t, p x = false) :
    ∃ (r : Text) (c : Char) (s : Text), t = r ++ c :: s ∧ p c = false ∧ All p s := by
  rcases all_or_first_not p t.reverse with hall | ⟨s, c, r, ht, hs, hc⟩
  · obtain ⟨x, hx, hout⟩ := h
    rw [hall x (List.mem_reverse.2 hx)] at hout
    cases hout
  · refine ⟨r.reverse, c, s.reverse, ?_, hc, fun x hx => hs x (List.mem_reverse.1 hx)⟩
    rw [← List.reverse_reverse t, ht]
    simp

/-- And a first one. -/
theorem exists_first_not (h : ∃ x ∈ t, p x = false) :
    ∃ (s : Text) (c : Char) (r : Text), t = s ++ c :: r ∧ All p s ∧ p c = false := by
  refine (all_or_first_not p t).resolve_left fun hall => ?_
  obtain ⟨x, hx, hout⟩ := h
  rw [hall x hx] at hout
  cases hout

theorem dropWhile_append_of_not (hs : All p s) (hc : p c = false) : (s ++ c :: t).dropWhile p = c :: t :=
  dropWhile_append_of_stop hs fun d hd => by
    rw [List.head?_cons, Option.mem_some_iff] at hd
    rw [← hd, hc]

theorem dropTrailing_cons_of_not (hc : p c = false) (t : Text) : dropTrailing p (c :: t) = c :: dropTrailing p t :=
  dropTrailing_append_of_not (s := []) hc

end Text

namespace Dialect

variable (d : Dialect)

theorem isSeparator_separator : d.isSeparator d.separator = true := by
  cases d <;> rfl

theorem join_nil (child : Text) : d.join [] child = child.dropWhile d.isSeparator := rfl

/-! ## Trimming -/

/-- Separators at the start of a joined path come from its base, or from the join itself. -/
theorem dropWhile_join (base child : Text) :
    (d.join base child).dropWhile d.isSeparator = d.join (base.dropWhile d.isSeparator) child := by
  rcases Text.all_or_first_not d.isSeparator base with hall | ⟨s, c, r, rfl, hs, hc⟩
  · rw [List.dropWhile_eq_nil_iff.2 hall, join_nil]
    by_cases hbase : base = []
    · rw [hbase, join_nil, List.dropWhile_idempotent]
    · rw [join_of_ne_nil hbase, Text.dropTrailing_eq, List.rdropWhile_eq_nil_iff.2 hall, List.nil_append,
        List.dropWhile_cons_of_pos d.isSeparator_separator, List.dropWhile_idempotent]
  · rw [join_of_ne_nil (by simp), Text.dropTrailing_append_of_not hc, List.append_assoc, List.cons_append,
      Text.dropWhile_append_of_not hs hc, Text.dropWhile_append_of_not hs hc, join_of_ne_nil (List.cons_ne_nil c r),
      Text.dropTrailing_cons_of_not hc, List.cons_append]

theorem join_assoc (a b c : Text) : d.join (d.join a b) c = d.join a (d.join b c) := by
  by_cases ha : a = []
  · rw [ha, join_nil, join_nil, dropWhile_join]
  · rw [join_of_ne_nil (join_ne_nil ha), join_of_ne_nil ha, join_of_ne_nil ha, dropWhile_join]
    have hfront : (a.dropTrailing d.isSeparator).dropTrailing d.isSeparator = a.dropTrailing d.isSeparator :=
      List.rdropWhile_idempotent d.isSeparator a
    generalize a.dropTrailing d.isSeparator = front at hfront ⊢
    rcases Text.all_or_first_not d.isSeparator b with hall | ⟨s, x, r, rfl, hs, hx⟩
    · -- the path in the middle leaves nothing but the separator before it, which the second join trims away
      have hsep : Text.All d.isSeparator [d.separator] := .cons d.isSeparator_separator .nil
      rw [List.dropWhile_eq_nil_iff.2 hall, join_nil, Text.dropTrailing_append_of_all hsep, hfront]
    · have hseam : (front ++ d.separator :: x :: r).dropTrailing d.isSeparator
          = front ++ d.separator :: x :: r.dropTrailing d.isSeparator := by
        rw [List.append_cons, Text.dropTrailing_append_of_not hx, ← List.append_cons]
      rw [Text.dropWhile_append_of_not hs hx, join_of_ne_nil (List.cons_ne_nil x r),
        Text.dropTrailing_cons_of_not hx, hseam, List.append_assoc]
      rfl

/-! ## Escaping -/

/-- The escape of a character that separates nothing does not begin with a separator. -/
theorem exists_escapeChar_cons {c : Char} (hc : d.isSeparator c = false) :
    ∃ x t, d.escapeChar c = x :: t ∧ d.isSeparator x = false := by
  cases d with
  | windows =>
    by_cases h : c = '%'
    · exact ⟨'%', ['%'], by simp [escapeChar, h], rfl⟩
    · exact ⟨c, [], by simp [escapeChar, h], hc⟩
  | posix =>
    by_cases h : isSpecial c = true
    · exact ⟨'\\', [c], by simp [escapeChar, h], rfl⟩
    · exact ⟨c, [], by simp [escapeChar, h], hc⟩

theorem escape_dropWhile (t : Text) :
    (d.escape t).dropWhile d.isSeparator = d.escape (t.dropWhile d.isSeparator) := by
  rcases Text.all_or_first_not d.isSeparator t with hall | ⟨s, c, r, rfl, hs, hc⟩
  · rw [escape_of_separators hall, List.dropWhile_eq_nil_iff.2 hall, escape_nil]
  · obtain ⟨x, u, hu, hx⟩ := d.exists_escapeChar_cons hc
    rw [Text.dropWhile_append_of_not hs hc, escape_append, escape_of_separators hs, escape_cons, hu, List.cons_append,
      Text.dropWhile_append_of_not hs hx]

theorem escape_join (base child : Text) : d.escape (d.join base child) = d.join (d.escape base) (d.escape child) := by
  by_cases hbase : base = []
  · rw [hbase, escape_nil, join_nil, join_nil, escape_dropWhile]
  · have hsep : d.escape [d.separator] = [d.separator] :=
      escape_of_separators (.cons d.isSeparator_separator .nil)
    rw [join_of_ne_nil hbase, join_of_ne_nil (escape_ne_nil hbase), escape_dropTrailing, escape_dropWhile,
      List.append_cons, escape_append, escape_append, hsep, ← List.append_cons]

/-! ## The seam -/

/-- All separators behind the last character `x` of the base and before the first one `y` of the child become one. -/
theorem join_seam {front ends start rest : Text} {x y : Char} (hx : d.isSeparator x = false)
    (hends : ends.All d.isSeparator) (hstart : start.All d.isSeparator) (hy : d.isSeparator y = false) :
    d.join (front ++ x :: ends) (start ++ y :: rest) = front ++ x :: d.separator :: y :: rest := by
  rw [join_of_ne_nil (by simp), Text.dropWhile_append_of_not hstart hy, Text.dropTrailing_append_of_not hx,
    Text.dropTrailing_eq, List.rdropWhile_eq_nil_iff.2 hends, List.append_assoc]
  rfl

end Dialect

/-- Joining is associative and commutes with escaping, whatever the three texts are. Where both texts hold more than
separators, exactly one character stands between the last of the base and the first of the child that separate nothing:
the dialect's own separator. -/
theorem joined_paths (d : Dialect) (a b c : Text) :
    d.join (d.join a b) c = d.join a (d.join b c)
      ∧ d.escape (d.join a b) = d.join (d.escape a) (d.escape b)
      ∧ ((∃ x ∈ a, d.isSeparator x = false) → (∃ y ∈ b, d.isSeparator y = false) →
        ∃ (front : Text) (x : Char) (ends start : Text) (y : Char) (rest : Text),
          (a = front ++ x :: ends ∧ d.isSeparator x = false ∧ ends.All d.isSeparator)
            ∧ (b = start ++ y :: rest ∧ start.All d.isSeparator ∧ d.isSeparator y = false)
            ∧ d.join a b = front ++ [x, d.separator, y] ++ rest) := by
  refine ⟨d.join_assoc a b c, d.escape_join a b, fun ha hb => ?_⟩
  obtain ⟨front, x, ends, rfl, hx, hends⟩ := Text.exists_last_not ha
  obtain ⟨start, y, rest, rfl, hstart, hy⟩ := Text.exists_first_not hb
  refine ⟨front, x, ends, start, y, rest, ⟨rfl, hx, hends⟩, ⟨rfl, hstart, hy⟩, ?_⟩
  rw [d.join_seam hx hends hstart hy, List.append_assoc]
  rfl

/-- Two kinds of separators on both sides of the seam. -/
theorem joined_paths_of_mixed_separators :
    let a := "C:\\clips\\/".toList
    let b := "/\\done".toList
    let sep := Dialect.windows.isSeparator
    (∃ x ∈ a, sep x = false) ∧ (∃ y ∈ b, sep y = false)
      ∧ ∃ (front : Text) (x : Char) (ends start : Text) (y : Char) (rest : Text),
        (a = front ++ x :: ends ∧ sep x = false ∧ ends.All sep)
          ∧ (b = start ++ y :: rest ∧ start.All sep ∧ sep y = false)
          ∧ Dialect.windows.join a b = front ++ [x, '\\', y] ++ rest := by
  intro a b sep
  have ha : ∃ x ∈ a, sep x = false := ⟨'C', by decide +kernel, rfl⟩
  have hb : ∃ y ∈ b, sep y = false := ⟨'d', by decide +kernel, rfl⟩
  exact ⟨ha, hb, (joined_paths .windows a b []).2.2 ha hb⟩

end Watermark
