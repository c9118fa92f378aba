import Watermark.Json.Skip
import Watermark.Proofs.Json.Pieces

/-!
# Any value can be passed over

`Skip.value` passes over every value of the grammar, nested to any depth (`run_value`). A turn of its loop takes a
value without parts or an opening bracket. So what is behind a value is reached in at most as many turns as the value
has characters, with the brackets open that were open before it; `Passes` says this of each symbol, and `passes` is
the induction on the derivation.
-/

namespace Watermark.Json.Skip

/-! ## The turns of the loop -/

/-- What is done behind a value: nothing more where no bracket is open. -/
def further (n : Nat) (brackets : List Bracket) : Reader Unit := do
  if brackets.isEmpty then return
  keyIn brackets
  values n brackets

theorem values_succ (n : Nat) (brackets : List Bracket) : values (n + 1) brackets = (do
    match ← start with
    | some b => opened b brackets >>= further n
    | none => close brackets >>= further n) := by
  rw [values]
  refine bind_congr fun b => ?_
  cases b with
  | none => rfl
  | some b => rfl

theorem ignoresBlanks_start : IgnoresBlanks start := ignoresBlanks_peek.bind _

theorem ignoresBlanks_values (n : Nat) (brackets : List Bracket) : IgnoresBlanks (values n brackets) := by
  cases n with
  | zero => exact fun _ _ _ => rfl
  | succ n =>
    rw [values_succ]
    exact ignoresBlanks_start.bind _

theorem ignoresBlanks_key : IgnoresBlanks key := (ignoresBlanks_expect _).bind _

theorem ignoresBlanks_close (b : Bracket) (outer : List Bracket) : IgnoresBlanks (close (b :: outer)) :=
  ignoresBlanks_peek.bind _

theorem ignoresBlanks_opened (b : Bracket) (outer : List Bracket) : IgnoresBlanks (opened b outer) :=
  ignoresBlanks_peek.bind _

variable (b : Bracket) (outer : List Bracket) (n : Nat) (t : Text)

theorem run_close_comma : (close (b :: outer)).run (',' :: t) = .ok (b :: outer, t) := by
  rw [close, run_bind_of_ok (run_peek_cons (by decide) t)]
  rfl

theorem run_close_closing : (close (b :: outer)).run (b.closing :: t) = (close outer).run t := by
  have hblank : isBlank b.closing = false := by cases b <;> decide
  rw [close, run_bind_of_ok (run_peek_cons hblank t)]
  cases b <;> rfl

theorem run_opened_closing : (opened b outer).run (b.closing :: t) = (close outer).run t := by
  have hblank : isBlank b.closing = false := by cases b <;> decide
  rw [opened, run_bind_of_ok (run_peek_cons hblank t)]
  cases b <;> rfl

theorem run_opened_of_ne {c : Char} (hblank : isBlank c = false) (hne : c ≠ b.closing) :
    (opened b outer).run (c :: t) = .ok (b :: outer, c :: t) := by
  rw [opened, run_bind_of_ok (run_peek_cons hblank t)]
  show (if (c == b.closing) = true then _ else return b :: outer : Reader (List Bracket)).run (c :: t) = _
  rw [if_neg (by simpa using hne)]
  rfl

/-! ## Values without parts -/

theorem run_values_of_start {w rest : Text} (h : start.run (w ++ rest) = .ok (none, rest)) :
    (values (1 + n) outer).run (w ++ rest) = (close outer >>= further n).run rest := by
  rw [Nat.add_comm, values_succ, run_bind_of_ok h]

theorem run_start_null (rest : Text) : start.run ("null".toList ++ rest) = .ok (none, rest) := by
  have hpeek : peek.run ("null".toList ++ rest) = .ok ('n', "null".toList ++ rest) := run_peek_cons (by decide) _
  exact (run_bind_of_ok hpeek).trans (run_bind_of_ok (run_word "null".toList rest))

theorem run_start_bool (b : Bool) (rest : Text) : start.run (Value.boolText b ++ rest) = .ok (none, rest) := by
  cases b with
  | true =>
    have hpeek : peek.run ("true".toList ++ rest) = .ok ('t', "true".toList ++ rest) := run_peek_cons (by decide) _
    exact (run_bind_of_ok hpeek).trans (run_bind_of_ok (run_word "true".toList rest))
  | false =>
    have hpeek : peek.run ("false".toList ++ rest) = .ok ('f', "false".toList ++ rest) := run_peek_cons (by decide) _
    exact (run_bind_of_ok hpeek).trans (run_bind_of_ok (run_word "false".toList rest))

theorem run_start_number {token : Token} {w rest : Text} (h : token.Spells w) (hrest : Ends rest) :
    start.run (w ++ rest) = .ok (none, rest) := by
  obtain ⟨c, u, htext, hc⟩ := h.exists_cons
  have hpeek : peek.run (w ++ rest) = .ok (c, w ++ rest) := by
    rw [htext]
    exact run_peek_cons (Token.not_isBlank_of_begins hc) _
  have hskip : Token.skip.run (w ++ rest) = .ok ((), rest) := by
    rw [StateT.run, Token.skip, Token.run_scan h hrest]
  rw [start, run_bind_of_ok hpeek]
  split
  -- the other kinds of values begin with other characters
  iterate 6 exact absurd hc (by decide)
  rw [if_pos hc, run_bind_of_ok hskip]
  rfl

theorem run_start_string {w : Text} {ps : List Quoted.Piece} (h : Quoted.Pieces w ps) (rest : Text) :
    start.run ('"' :: (w ++ '"' :: rest)) = .ok (none, rest) := by
  have hadvance : advance.run ('"' :: (w ++ '"' :: rest)) = .ok ((), w ++ '"' :: rest) := rfl
  refine (run_bind_of_ok (run_peek_cons (by decide) _)).trans ?_
  refine (run_bind_of_ok hadvance).trans ?_
  exact run_bind_of_ok (Quoted.skip_pieces h rest)

/-! ## Values with parts -/

theorem run_start_opening {c : Char} {b : Bracket} (h : (c, b) ∈ [('[', Bracket.array), ('\x7b', .object)]) :
    start.run (c :: t) = .ok (some b, t) := by
  simp only [List.mem_cons, List.not_mem_nil, or_false, Prod.mk.injEq] at h
  obtain ⟨rfl, rfl⟩ | ⟨rfl, rfl⟩ := h
  · exact run_bind_of_ok (run_peek_cons (by decide) _)
  · exact run_bind_of_ok (run_peek_cons (by decide) _)

section
variable {b outer n t} {gap : Text}

/-- Behind an opening bracket that closes at once. -/
theorem run_values_closed {c : Char} (h : (c, b) ∈ [('[', Bracket.array), ('\x7b', .object)]) (hgap : gap.All isBlank) :
    (values (1 + n) outer).run (c :: (gap ++ b.closing :: t)) = (close outer >>= further n).run t := by
  rw [Nat.add_comm, values_succ, run_bind_of_ok (run_start_opening _ h)]
  show (opened b outer >>= further n).run (gap ++ b.closing :: t) = _
  rw [StateT.run_bind, ignoresBlanks_opened b outer gap _ hgap, run_opened_closing, ← StateT.run_bind]

/-- Behind an opening bracket that stays open. -/
theorem run_values_opened {c d : Char} {u : Text} (h : (c, b) ∈ [('[', Bracket.array), ('\x7b', .object)])
    (hgap : gap.All isBlank) (hblank : isBlank d = false) (hne : d ≠ b.closing) :
    (values (1 + n) outer).run (c :: (gap ++ d :: u)) = (further n (b :: outer)).run (d :: u) := by
  have hopened : (opened b outer).run (gap ++ d :: u) = .ok (b :: outer, d :: u) := by
    rw [ignoresBlanks_opened b outer gap _ hgap, run_opened_of_ne b outer u hblank hne]
  rw [Nat.add_comm, values_succ, run_bind_of_ok (run_start_opening _ h)]
  exact run_bind_of_ok hopened

/-- Behind the last part of a value. -/
theorem run_close_last (hgap : gap.All isBlank) :
    (close (b :: outer) >>= further n).run (gap ++ b.closing :: t) = (close outer >>= further n).run t := by
  rw [(ignoresBlanks_close b outer).bind _ gap _ hgap, StateT.run_bind, run_close_closing, ← StateT.run_bind]

/-- Behind a part of a value that is not the last one. -/
theorem run_close_more (hgap : gap.All isBlank) :
    (close (b :: outer) >>= further n).run (gap ++ ',' :: t) = (further n (b :: outer)).run t := by
  rw [(ignoresBlanks_close b outer).bind _ gap _ hgap, run_bind_of_ok (run_close_comma b outer t)]

end

/-! ## Any value -/

/-- A symbol is passed over in at most as many turns as it has characters, so that what follows it is next. Elements
and members are passed over with the bracket that closes them. -/
def Passes : Symbol → Text → Prop
  | .value _, w => ∃ k ≤ w.length, ∀ n outer rest, Ends rest →
    (values (k + n) outer).run (w ++ rest) = (close outer >>= further n).run rest
  | .elements _, w => ∃ k ≤ w.length, ∀ n outer rest,
    (further (k + n) (.array :: outer)).run (w ++ ']' :: rest) = (close outer >>= further n).run rest
  | .member _ _, w => ∃ k ≤ w.length, ∀ n outer rest, Ends rest →
    (further (k + n) (.object :: outer)).run (w ++ rest) = (close (.object :: outer) >>= further n).run rest
  | .members _, w => ∃ k ≤ w.length, ∀ n outer rest,
    (further (k + n) (.object :: outer)).run (w ++ '\x7d' :: rest) = (close outer >>= further n).run rest

/-- Behind a bracket of an array the next value follows. -/
theorem further_array : further n (.array :: outer) = values n (.array :: outer) := rfl

theorem ignoresBlanks_further (b : Bracket) : IgnoresBlanks (further n (b :: outer)) := by
  cases b with
  | array => exact ignoresBlanks_values n _
  | object => exact ignoresBlanks_key.bind _

theorem run_key {k gap rest : Text} {ps : List Quoted.Piece} (h : Quoted.Pieces k ps) (hgap : gap.All isBlank) :
    key.run ('"' :: (k ++ '"' :: (gap ++ ':' :: rest))) = .ok ((), rest) := by
  rw [key, run_bind_of_ok (run_expect_cons (by decide) _), run_bind_of_ok (Quoted.skip_pieces h _)]
  exact run_expect hgap (by decide)

theorem passes {s : Symbol} {w : Text} (h : Derives s w) : Passes s w := by
  -- the turns add up: those of the parts, and one for each value without parts and each opening bracket
  induction h with
  | null => exact ⟨1, by decide, fun n outer rest _ => run_values_of_start outer n (run_start_null rest)⟩
  | bool b =>
    refine ⟨1, by cases b <;> decide, fun n outer rest _ => ?_⟩
    exact run_values_of_start outer n (run_start_bool b rest)
  | number h =>
    obtain ⟨c, u, hw, -⟩ := h.exists_cons
    refine ⟨1, by rw [hw, List.length_cons]; omega, fun n outer rest hrest => ?_⟩
    exact run_values_of_start outer n (run_start_number h hrest)
  | @string w ps h =>
    refine ⟨1, by rw [List.length_cons]; omega, fun n outer rest _ => ?_⟩
    have hstart := run_start_string h rest
    rw [show '"' :: (w ++ '"' :: rest) = ('"' :: (w ++ ['"'])) ++ rest by simp] at hstart
    exact run_values_of_start outer n hstart
  | emptyArray hgap =>
    refine ⟨1, by rw [List.length_cons]; omega, fun n outer rest _ => ?_⟩
    rw [List.cons_append, List.append_assoc]
    exact run_values_closed (b := .array) (by decide) hgap
  | @array gap w cs hgap hw ih =>
    obtain ⟨k, hk, hpass⟩ := ih
    obtain ⟨d, u, hd, hblank, hne⟩ := hw.exists_cons_of_elements
    refine ⟨1 + k, by simp; omega, fun n outer rest _ => ?_⟩
    have hpass := hpass n outer rest
    have htext : '[' :: (gap ++ (w ++ [']'])) ++ rest = '[' :: (gap ++ (w ++ ']' :: rest)) := by simp
    rw [htext, ← hpass, Nat.add_assoc, hd]
    exact run_values_opened (b := .array) (by decide) hgap hblank hne
  | emptyObject hgap =>
    refine ⟨1, by rw [List.length_cons]; omega, fun n outer rest _ => ?_⟩
    rw [List.cons_append, List.append_assoc]
    exact run_values_closed (b := .object) (by decide) hgap
  | @object gap w ms hgap hw ih =>
    obtain ⟨k, hk, hpass⟩ := ih
    obtain ⟨u, hd⟩ := hw.exists_cons_of_members
    refine ⟨1 + k, by simp; omega, fun n outer rest _ => ?_⟩
    have hpass := hpass n outer rest
    have htext : '\x7b' :: (gap ++ (w ++ ['\x7d'])) ++ rest = '\x7b' :: (gap ++ (w ++ '\x7d' :: rest)) := by simp
    rw [htext, ← hpass, Nat.add_assoc, hd]
    exact run_values_opened (b := .object) (by decide) hgap (by decide) (by decide)
  | @lastElement c w gap h hgap ih =>
    obtain ⟨k, hk, hpass⟩ := ih
    refine ⟨k, by simp; omega, fun n outer rest => ?_⟩
    have hends : Ends (gap ++ ']' :: rest) := ends_append hgap (ends_cons (by decide))
    rw [List.append_assoc, further_array, hpass n _ _ hends]
    exact run_close_last (b := .array) hgap
  | @moreElements c cs w gap gap' v h hgap hgap' hv ih ihv =>
    obtain ⟨k, hk, hpass⟩ := ih
    obtain ⟨l, hl, hpassv⟩ := ihv
    refine ⟨k + l, by simp; omega, fun n outer rest => ?_⟩
    have htext : w ++ (gap ++ ',' :: (gap' ++ v)) ++ ']' :: rest
        = w ++ (gap ++ ',' :: (gap' ++ (v ++ ']' :: rest))) := by simp
    have hends : Ends (gap ++ ',' :: (gap' ++ (v ++ ']' :: rest))) := ends_append hgap (ends_cons (by decide))
    rw [htext, Nat.add_assoc, further_array, hpass (l + n) _ _ hends, run_close_more hgap,
      ignoresBlanks_further _ _ _ _ _ hgap']
    exact hpassv n outer rest
  | @member k ps gap gap' w last c hk hgap hgap' h hlast ih =>
    obtain ⟨l, hl, hpass⟩ := ih
    refine ⟨l, by simp; omega, fun n outer rest hrest => ?_⟩
    have htext : '"' :: (k ++ '"' :: (gap ++ ':' :: (gap' ++ (w ++ last)))) ++ rest
        = '"' :: (k ++ '"' :: (gap ++ ':' :: (gap' ++ (w ++ (last ++ rest))))) := by simp
    rw [htext]
    refine (run_bind_of_ok (run_key hk hgap)).trans ?_
    rw [ignoresBlanks_values _ _ _ _ hgap', hpass n _ _ (ends_append hlast hrest)]
    exact (ignoresBlanks_close _ _).bind _ _ _ hlast
  | @lastMember k c w h ih =>
    obtain ⟨l, hl, hpass⟩ := ih
    refine ⟨l, hl, fun n outer rest => ?_⟩
    rw [hpass n outer _ (ends_cons (by decide))]
    exact run_close_last (b := .object) Text.All.nil
  | @moreMembers k c ms w gap v h hgap hv ih ihv =>
    obtain ⟨l, hl, hpass⟩ := ih
    obtain ⟨l', hl', hpassv⟩ := ihv
    refine ⟨l + l', by simp; omega, fun n outer rest => ?_⟩
    have htext : w ++ ',' :: (gap ++ v) ++ '\x7d' :: rest = w ++ ',' :: (gap ++ (v ++ '\x7d' :: rest)) := by simp
    rw [htext, Nat.add_assoc, hpass (l' + n) outer _ (ends_cons (by decide))]
    refine (run_close_more Text.All.nil).trans ?_
    rw [ignoresBlanks_further _ _ _ _ _ hgap]
    exact hpassv n outer rest

/-- Any value is passed over, wherever it stands. -/
theorem run_value {c : Content} {w gap rest : Text} (h : Derives (.value c) w) (hgap : gap.All isBlank)
    (hrest : Ends rest) : value.run (gap ++ (w ++ rest)) = .ok ((), rest) := by
  obtain ⟨k, hk, hpass⟩ := passes h
  have hget : (get : Reader Text).run (gap ++ (w ++ rest)) = .ok (gap ++ (w ++ rest), gap ++ (w ++ rest)) := rfl
  obtain ⟨n, hn⟩ : ∃ n, (gap ++ (w ++ rest)).length + 1 = k + n := by
    refine ⟨(gap ++ (w ++ rest)).length + 1 - k, ?_⟩
    rw [List.length_append, List.length_append]
    omega
  rw [value, run_bind_of_ok hget, hn, ignoresBlanks_values _ _ _ _ hgap, hpass n [] rest hrest]
  rfl

end Watermark.Json.Skip
