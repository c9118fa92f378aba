import Watermark.Proofs.Json.Grammar
import Watermark.Proofs.Json.Quoted

/-!
# Strings are read by their pieces

A string in any notation is read as the text of its pieces, and refused where they make no text (`read_pieces`). The
induction is on how pieces make a text, since the two halves of a pair are read together; whether a second half follows
is told by the next piece (`trailingUnit_pieces`). A string that nobody wants is passed over in any case
(`skip_pieces`).
-/

namespace Watermark.Json.Quoted

variable {w : Text} {ps : List Piece}

theorem codeUnit_append {a b c d : Char} {u : Nat} (h : codeUnit [a, b, c, d] = .ok u) (rest : Text) :
    codeUnit (a :: b :: c :: d :: rest) = .ok u := h

/-! ## Passing over a string -/

theorem looseEscape_letter {c d : Char} (h : simpleEscape? c = some d) (rest : Text) :
    looseEscape (c :: rest) = .ok (d, 1) := by
  rw [← escape_letter h rest, looseEscape]
  intro t ht
  cases ht
  exact ne_u_of_simpleEscape h rfl

theorem looseEscape_unit {w : Text} {u : Nat} (h : codeUnit w = .ok u) :
    looseEscape ('u' :: w) = .ok ('\ufffd', 5) := by
  rw [looseEscape, h]
  rfl

theorem chars_looseEscape (h : Pieces w ps) (rest : Text) :
    ∃ t, chars looseEscape 0 (w ++ '"' :: rest) = .ok (t, rest) := by
  induction h with
  | nil => exact ⟨[], rfl⟩
  | @self c w _ hquote hbackslash hcontrol _ ih =>
    obtain ⟨t, ht⟩ := ih
    rw [List.cons_append, chars_self hquote hbackslash (Nat.not_lt.2 hcontrol), ht]
    exact ⟨_, rfl⟩
  | @letter c d w _ hletter _ ih =>
    obtain ⟨t, ht⟩ := ih
    have hread := chars_escape [c] (w ++ '"' :: rest) (looseEscape_letter hletter _)
    rw [ht] at hread
    exact ⟨_, hread⟩
  | @unit a b c d u w _ hunit _ ih =>
    obtain ⟨t, ht⟩ := ih
    have hescape := looseEscape_unit (codeUnit_append hunit (w ++ '"' :: rest))
    have hread := chars_escape ['u', a, b, c, d] (w ++ '"' :: rest) hescape
    rw [ht] at hread
    exact ⟨_, hread⟩

/-- A string that nobody wants is passed over, with halves of pairs wherever they stand. -/
theorem skip_pieces (h : Pieces w ps) (rest : Text) : skip.run (w ++ '"' :: rest) = .ok ((), rest) := by
  obtain ⟨t, ht⟩ := chars_looseEscape h rest
  show (chars looseEscape 0 (w ++ '"' :: rest) >>= fun p => pure ((), p.2)) = _
  rw [ht]
  rfl

/-! ## Reading a string -/

theorem trailingUnit_pieces (h : Pieces w ps) (rest : Text) :
    (trailingUnit (w ++ '"' :: rest)).toOption = trailing? ps := by
  cases h with
  | nil => rfl
  | @self c w _ hquote hbackslash hcontrol _ =>
    rw [List.cons_append, trailingUnit]
    · rfl
    all_goals
      intros
      simp_all
  | @letter c d w _ hletter _ =>
    have hu := ne_u_of_simpleEscape hletter
    rw [List.cons_append, List.cons_append, trailingUnit]
    · rfl
    all_goals
      intros
      simp_all
  | @unit a b c d u w _ hunit _ =>
    show (codeUnit (a :: b :: c :: d :: (w ++ '"' :: rest)) >>= fun v =>
      if isTrailing v then pure v else throw .malformed).toOption = _
    rw [codeUnit_append hunit]
    show (if isTrailing u = true then .ok u else .error .malformed : Except Fault Nat).toOption
      = if isTrailing u = true then some u else none
    split
    · rfl
    · rfl

theorem escape_of_trailing {w : Text} {u : Nat} (h : codeUnit w = .ok u) (htrailing : isTrailing u = true) :
    escape ('u' :: w) = .error .malformed := by
  rw [escape, h]
  show (if isTrailing u = true then throw Fault.malformed else _ : Except Fault (Char × Nat)) = _
  rw [if_pos htrailing]
  rfl

theorem escape_of_leading {w : Text} {u : Nat} (h : codeUnit w = .ok u) (htrailing : ¬ isTrailing u = true)
    (hleading : isLeading u = true) :
    escape ('u' :: w) = (trailingUnit (w.drop 4)).map fun v => (ofPair u v, 11) := by
  rw [escape, h]
  show (if isTrailing u = true then throw Fault.malformed
    else if isLeading u = true then (do pure (ofPair u (← trailingUnit (w.drop 4)), 11)) else _ : Except Fault _) = _
  rw [if_neg htrailing, if_pos hleading]
  cases trailingUnit (w.drop 4) <;> rfl

/-- Behind the first half of a pair, what follows decides. -/
theorem chars_of_leading {a b c d : Char} {u : Nat} (hunit : codeUnit [a, b, c, d] = .ok u)
    (htrailing : ¬ isTrailing u = true) (hleading : isLeading u = true) (h : Pieces w ps) (rest : Text) :
    (chars escape 0 ('\\' :: 'u' :: a :: b :: c :: d :: (w ++ '"' :: rest))).toOption
      = (trailing? ps).bind fun v =>
        ((chars escape 6 (w ++ '"' :: rest)).toOption).map (before (ofPair u v)) := by
  have hescape := escape_of_leading (codeUnit_append hunit (w ++ '"' :: rest)) htrailing hleading
  have hnext := trailingUnit_pieces h rest
  rw [show (a :: b :: c :: d :: (w ++ '"' :: rest)).drop 4 = w ++ '"' :: rest from rfl] at hescape
  cases hunit' : trailingUnit (w ++ '"' :: rest) with
  | error e =>
    rw [hunit'] at hescape hnext
    rw [← hnext, chars_of_error hescape]
    rfl
  | ok v =>
    rw [hunit'] at hescape hnext
    rw [← hnext, chars, hescape]
    show (chars escape 11 ('u' :: a :: b :: c :: d :: (w ++ '"' :: rest)) >>= fun p =>
      pure (ofPair u v :: p.1, p.2)).toOption = _
    rw [chars, chars, chars, chars, chars]
    cases chars escape 6 (w ++ '"' :: rest) <;> rfl

theorem map_before (x : Option Text) (c : Char) (rest : Text) :
    (x.map (·, rest)).map (before c) = (x.map (c :: ·)).map (·, rest) := by
  cases x <;> rfl

/-- A string is read as the text of its pieces, if they make one. -/
theorem read_pieces (h : Pieces w ps) (rest : Text) :
    (read.run (w ++ '"' :: rest)).toOption = (decode? ps).map (·, rest) := by
  show (chars escape 0 (w ++ '"' :: rest)).toOption = _
  induction ps using decode?.induct generalizing w with
  | case1 =>
    cases h
    rw [decode?]
    rfl
  | case2 c ps ih =>
    -- the character stands for itself or behind a backslash
    cases h with
    | @self _ w _ hquote hbackslash hcontrol hw =>
      rw [List.cons_append, chars_self hquote hbackslash (Nat.not_lt.2 hcontrol), toOption_map, ih hw, map_before,
        decode?]
    | @letter l _ w _ hletter hw =>
      have hread := chars_escape [l] (w ++ '"' :: rest) (escape_letter hletter _)
      show (chars escape 0 ('\\' :: ([l] ++ (w ++ '"' :: rest)))).toOption = _
      rw [hread, toOption_map, ih hw, map_before, decode?]
  | case3 u ps htrailing =>
    cases h with
    | @unit a b c d _ w _ hunit hw =>
      have hescape := escape_of_trailing (codeUnit_append hunit (w ++ '"' :: rest)) htrailing
      show (chars escape 0 ('\\' :: 'u' :: a :: b :: c :: d :: (w ++ '"' :: rest))).toOption = _
      rw [chars_of_error hescape, decode?, if_pos htrailing]
      rfl
  | case4 u ps htrailing hleading ih =>
    cases h with
    | @unit a b c d _ w _ hunit hw =>
      refine (chars_of_leading hunit htrailing hleading hw rest).trans ?_
      rw [decode?, if_neg htrailing, if_pos hleading]
      cases hw with
      | nil => rfl
      | self _ _ _ _ => rfl
      | letter _ _ => rfl
      | @unit a' b' c' d' v w ps hunit' hw =>
        have hsecond : chars escape 6 ('\\' :: 'u' :: a' :: b' :: c' :: d' :: (w ++ '"' :: rest))
            = chars escape 0 (w ++ '"' :: rest) := chars_append ['\\', 'u', a', b', c', d'] _
        have hih : (chars escape 0 (w ++ '"' :: rest)).toOption = (decode? ps).map (·, rest) := ih hw
        show ((trailing? (.unit v :: ps)).bind fun v' => ((chars escape 6 ('\\' :: 'u' :: a' :: b' :: c' :: d' ::
          (w ++ '"' :: rest))).toOption).map (before (ofPair u v'))) = _
        rw [hsecond, hih, Option.map_bind]
        exact Option.bind_congr fun v' _ => map_before _ _ _
  | case5 u ps htrailing hleading ih =>
    cases h with
    | @unit a b c d _ w _ hunit hw =>
      have hescape := escape_unit (codeUnit_append hunit (w ++ '"' :: rest)) (Bool.eq_false_iff.2 htrailing)
        (Bool.eq_false_iff.2 hleading)
      have hread := chars_escape ['u', a, b, c, d] (w ++ '"' :: rest) hescape
      show (chars escape 0 ('\\' :: (['u', a, b, c, d] ++ (w ++ '"' :: rest)))).toOption = _
      rw [hread, toOption_map, ih hw, map_before, decode?, if_neg htrailing, if_neg hleading]

end Watermark.Json.Quoted
