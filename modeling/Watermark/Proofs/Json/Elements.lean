import Watermark.Proofs.Json.Object

/-!
# Lists and records are read element by element

Behind the opening bracket of an array come its elements, one after the other, and the closing bracket (`Elements`).
The same text is a list, if that is wanted, or a record with its fields in their own order. Both readers take one
element a turn, so each is followed by induction: that of lists on the elements, that of records on the fields.

* `Derives.exists_elements`: the elements of an array of the grammar;
* `takes_list`: a list is taken if each of its elements is;
* `toOption_run_arrayForm`: a record in the form of an array makes of its elements what `Typed.inOrder` says.
-/

namespace Watermark.Json

variable {σ α : Type} {c : Content} {cs : List Content} {first : Bool} {t w rest : Text}

/-! ## Elements -/

/-- Elements as they stand behind an opening bracket, or behind an element; behind the closing bracket is `rest`. -/
inductive Elements : Bool → List Content → Text → Text → Prop
  | last {first : Bool} {gap rest : Text} : gap.All isBlank → Elements first [] (gap ++ ']' :: rest) rest
  | more {first : Bool} {c : Content} {cs : List Content} {gap gap' w u rest : Text} : gap.All isBlank →
    gap'.All isBlank → Derives (.value c) w → Elements false cs u rest →
    Elements first (c :: cs) (gap ++ (Layout.separator first ++ (gap' ++ (w ++ u)))) rest

theorem Derives.elements (h : Derives (.elements cs) w) (first : Bool) {gap gap' : Text} (hgap : gap.All isBlank)
    (hgap' : gap'.All isBlank) (rest : Text) :
    Elements first cs (gap ++ (Layout.separator first ++ (gap' ++ (w ++ ']' :: rest)))) rest := by
  induction cs generalizing first w gap gap' with
  | nil => cases h
  | cons c cs ih =>
    cases h with
    | lastElement hw hlast =>
      rw [List.append_assoc]
      exact .more hgap hgap' hw (.last hlast)
    | @moreElements _ _ w before after v hw hbefore hafter hv =>
      have hmore : Elements first (c :: cs) _ rest := .more hgap hgap' hw (ih hv false hbefore hafter)
      simpa [Layout.separator] using hmore

/-- The text of an array is a bracket and the elements behind it. -/
theorem Derives.exists_elements (h : Derives (.value (.array cs)) w) (rest : Text) :
    ∃ t, w ++ rest = '[' :: t ∧ Elements true cs t rest := by
  cases h with
  | @emptyArray gap hgap => exact ⟨gap ++ ']' :: rest, by simp, .last hgap⟩
  | @array gap w _ hgap hw => exact ⟨gap ++ (w ++ ']' :: rest), by simp, hw.elements true .nil hgap rest⟩

namespace Elements

theorem ends (h : Elements false cs t rest) : Ends t := by
  cases h with
  | last hgap => exact ends_append hgap (ends_cons (by decide))
  | more hgap _ _ _ => exact ends_append hgap (ends_cons (by decide))

/-- An element takes a character, and so does the bracket. -/
theorem length_lt (h : Elements first cs t rest) : cs.length < t.length := by
  induction h with
  | last hgap =>
    rw [List.length_append, List.length_cons, List.length_nil]
    omega
  | more hgap hgap' hw _ ih =>
    obtain ⟨d, v, rfl, -⟩ := hw.exists_cons
    simp
    omega

end Elements

/-! ## The next element -/

theorem run_nextElement_last (first : Bool) {gap : Text} (hgap : gap.All isBlank) (rest : Text) :
    (nextElement first).run (gap ++ ']' :: rest) = .ok (false, ']' :: rest) := by
  rw [nextElement, run_bind_of_ok (run_peek hgap (by decide))]
  rfl

theorem run_nextElement_more (first : Bool) {gap gap' : Text} (hgap : gap.All isBlank) (hgap' : gap'.All isBlank)
    (hw : Derives (.value c) w) (rest : Text) :
    (nextElement first).run (gap ++ (Layout.separator first ++ (gap' ++ (w ++ rest)))) = .ok (true, w ++ rest) := by
  obtain ⟨d, u, rfl, hd⟩ := hw.exists_cons
  have hblank : isBlank d = false := Content.not_isBlank_of_begins hd
  have hne : ¬(d == ']') = true := fun h => Content.ne_bracket_of_begins hd (eq_of_beq h)
  cases first with
  | true =>
    have htext : gap ++ (Layout.separator true ++ (gap' ++ (d :: u ++ rest))) = gap ++ gap' ++ d :: (u ++ rest) := by
      simp [Layout.separator]
    rw [htext, nextElement, run_bind_of_ok (run_peek (hgap.append hgap') hblank), if_neg hne]
    rfl
  | false =>
    have hcomma : (expect ',').run (',' :: (gap' ++ d :: (u ++ rest))) = .ok ((), gap' ++ d :: (u ++ rest)) :=
      run_expect_cons (by decide) _
    show (nextElement false).run (gap ++ ',' :: (gap' ++ d :: (u ++ rest))) = _
    rw [nextElement, run_bind_of_ok (run_peek hgap (by decide)), if_neg (by decide)]
    refine (run_bind_of_ok hcomma).trans ((run_bind_of_ok (run_peek hgap' hblank)).trans ?_)
    rw [if_neg hne]
    rfl

/-! ## Lists -/

/-- The elements of a list, each taken by itself. -/
def Content.list? (take : Content → Option α) : Content → Option (List α)
  | array cs => cs.mapM take
  | _ => none

theorem toOption_run_listElements {r : Reader α} {take : Content → Option α} (hr : Takes r take)
    (h : Elements first cs t rest) {n : Nat} (hn : cs.length < n) :
    ((listElements r n first).run t).toOption = (cs.mapM take).map (·, rest) := by
  induction h generalizing n with
  | @last first gap rest hgap =>
    obtain ⟨n, rfl⟩ := Nat.exists_eq_succ_of_ne_zero (Nat.ne_zero_of_lt hn)
    rw [listElements, run_bind_of_ok (run_nextElement_last first hgap rest)]
    exact congrArg Except.toOption (run_bind_of_ok (run_expect_cons (c := ']') (by decide) rest))
  | @more first c cs gap gap' w u rest hgap hgap' hw hu ih =>
    obtain ⟨n, rfl⟩ := Nat.exists_eq_succ_of_ne_zero (Nat.ne_zero_of_lt hn)
    rw [List.length_cons, Nat.succ_lt_succ_iff] at hn
    have helement := hr c w [] u hw .nil hu.ends
    rw [listElements, run_bind_of_ok (run_nextElement_more first hgap hgap' hw u)]
    show ((r >>= fun a => (a :: ·) <$> listElements r n false).run (w ++ u)).toOption = _
    rw [List.nil_append] at helement
    rw [toOption_run_bind, helement, List.mapM_cons]
    cases take c with
    | none => rfl
    | some a =>
      show (((a :: ·) <$> listElements r n false).run u).toOption = _
      rw [toOption_run_map, ih hn]
      cases cs.mapM take <;> rfl

theorem takes_list {r : Reader α} {take : Content → Option α} (hr : Takes r take) :
    Takes (list r) (Content.list? take) := by
  intro c w gap rest h hgap hrest
  obtain ⟨d, hpeek, hd⟩ := run_peek_value h hgap rest
  rw [list, run_bind_of_ok hpeek]
  split
  · cases c with
    | array cs =>
      obtain ⟨t, htext, helements⟩ := h.exists_elements rest
      have hn : cs.length < t.length + 1 := Nat.lt_succ_of_lt helements.length_lt
      rw [htext]
      exact toOption_run_listElements hr helements hn
    | bool b => cases b <;> cases hd
    | _ => cases hd
  · rename_i hne
    rw [toOption_refuse]
    cases c with
    | array cs => exact absurd (eq_of_beq hd) hne
    | _ => rfl

/-! ## Records -/

namespace Typed

/-- What elements make of a record whose fields come in their own order. -/
def inOrder : List (Typed σ) → List Content → σ → Option σ
  | [], [], s => some s
  | [], _ :: _, _ => none
  | f :: fs, [], s => if f.field.absence = .initial then inOrder fs [] s else none
  | f :: fs, c :: cs, s => (f.take c).bind fun g => inOrder fs cs (g s)

end Typed

/-- Where an element is left over, the array does not close. -/
theorem toOption_expect_closing (h : Elements first (c :: cs) t rest) : ((expect ']').run t).toOption = none := by
  have hother : ∀ {d : Char} {gap u : Text}, gap.All isBlank → isBlank d = false → d ≠ ']' →
      ((expect ']').run (gap ++ d :: u)).toOption = none := by
    intro d gap u hgap hblank hne
    rw [expect, run_bind_of_ok (run_peek hgap hblank), if_neg (by simpa using hne)]
    rfl
  cases h with
  | @more _ _ _ gap gap' w u _ hgap hgap' hw _ =>
    cases first with
    | true =>
      obtain ⟨d, v, rfl, hd⟩ := hw.exists_cons
      have htext : gap ++ (Layout.separator true ++ (gap' ++ (d :: v ++ u))) = gap ++ gap' ++ d :: (v ++ u) := by
        simp [Layout.separator]
      rw [htext]
      exact hother (hgap.append hgap') (Content.not_isBlank_of_begins hd) (Content.ne_bracket_of_begins hd)
    | false => exact hother hgap (by decide) (by decide)

theorem toOption_run_arrayForm (fs : List (Typed σ)) (h : Elements first cs t rest) (s : σ) :
    ((arrayForm (fs.map (·.field)) first s).run t).toOption = (Typed.inOrder fs cs s).map (·, rest) := by
  induction fs generalizing first cs t s with
  | nil =>
    show ((expect ']' >>= fun _ => pure s : Reader σ).run t).toOption = _
    rw [toOption_run_bind]
    cases cs with
    | nil =>
      cases h with
      | last hgap =>
        rw [run_expect hgap (by decide)]
        rfl
    | cons c cs =>
      rw [toOption_expect_closing h]
      rfl
  | cons f fs ih =>
    rw [List.map_cons, arrayForm]
    cases h with
    | last hgap =>
      rw [run_bind_of_ok (run_nextElement_last first hgap rest)]
      show ((if (f.field.absence == .initial) = true then arrayForm (fs.map (·.field)) first s
        else throw .mismatch : Reader σ).run (']' :: rest)).toOption = _
      rw [Typed.inOrder]
      by_cases habsence : f.field.absence = .initial
      · rw [if_pos (beq_iff_eq.2 habsence), if_pos habsence]
        exact ih (.last .nil) s
      · rw [if_neg (fun hbeq => habsence (eq_of_beq hbeq)), if_neg habsence]
        rfl
    | @more _ c cs gap gap' w u _ hgap hgap' hw hu =>
      have helement := f.takes c w [] u hw .nil hu.ends
      rw [run_bind_of_ok (run_nextElement_more first hgap hgap' hw u)]
      show ((f.field.read >>= fun change => arrayForm (fs.map (·.field)) false (change s)).run (w ++ u)).toOption = _
      rw [List.nil_append] at helement
      rw [toOption_run_bind, helement, Typed.inOrder]
      cases f.take c with
      | none => rfl
      | some g => exact ih hu (g s)

end Watermark.Json
