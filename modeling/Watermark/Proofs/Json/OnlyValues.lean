import Watermark.Proofs.Json.Object
import Watermark.Proofs.Json.Scanned

/-!
# Readers take nothing but values

Whatever a reader takes from the front of a text, it is a value of the grammar (`OnlyValues`), also where the value is
read for a record or passed over.

A value with parts is taken part by part. Behind a part, further ones follow, each behind a comma, and then the closing
bracket; this is the `Remainder` of the bracket. A first part and the remainder are the elements or members of the
grammar (`Remainder.elements`, `Remainder.members`). The loop that passes over values has many brackets open, and has to
come to the end of each (`Closes`).

* `Skip.turns`: the loop, by induction on its turns;
* `onlyValues_text`, `onlyValues_optional`, `onlyValues_list`, `onlyValues_record`: the readers.
-/

namespace Watermark.Json

open Skip (Bracket)

variable {α : Type} {t u rest : Text}

/-! ## Values and brackets -/

/-- The text begins with a value, and `rest` is behind it. -/
def Ahead (t rest : Text) : Prop := ∃ gap c w, gap.All isBlank ∧ Derives (.value c) w ∧ t = gap ++ (w ++ rest)

theorem Ahead.blanks {gap : Text} (hgap : gap.All isBlank) (h : Ahead t rest) : Ahead (gap ++ t) rest := by
  obtain ⟨gap', c, w, hgap', hw, rfl⟩ := h
  exact ⟨gap ++ gap', c, w, hgap.append hgap', hw, by rw [List.append_assoc]⟩

theorem Derives.ahead {c : Content} {w : Text} (h : Derives (.value c) w) (rest : Text) : Ahead (w ++ rest) rest :=
  ⟨[], c, w, .nil, h, rfl⟩

/-- The text begins with an element or a member, and `rest` is behind its value. -/
def PartAhead : Bracket → Text → Text → Prop
  | .array, t, rest => Ahead t rest
  | .object, t, rest => ∃ (gap k : Text) (ps : List Quoted.Piece) (gap' v : Text),
    gap.All isBlank ∧ Quoted.Pieces k ps ∧ gap'.All isBlank ∧ t = gap ++ '"' :: (k ++ '"' :: (gap' ++ ':' :: v))
      ∧ Ahead v rest

theorem PartAhead.blanks {b : Bracket} {gap : Text} (hgap : gap.All isBlank) (h : PartAhead b t rest) :
    PartAhead b (gap ++ t) rest := by
  cases b with
  | array => exact Ahead.blanks hgap h
  | object =>
    obtain ⟨gap', k, ps, gap'', v, hgap', hk, hgap'', rfl, hv⟩ := h
    exact ⟨gap ++ gap', k, ps, gap'', v, hgap.append hgap', hk, hgap'', by rw [List.append_assoc], hv⟩

/-- What stands behind a part, up to the closing bracket. -/
inductive Remainder (b : Bracket) : Text → Text → Prop
  | last {gap rest : Text} : gap.All isBlank → Remainder b (gap ++ b.closing :: rest) rest
  | more {gap t u rest : Text} : gap.All isBlank → PartAhead b t u → Remainder b u rest →
    Remainder b (gap ++ ',' :: t) rest

theorem Remainder.blanks {b : Bracket} {gap : Text} (hgap : gap.All isBlank) (h : Remainder b t rest) :
    Remainder b (gap ++ t) rest := by
  cases h with
  | last hgap' =>
    rw [← List.append_assoc]
    exact .last (hgap.append hgap')
  | more hgap' hpart hrest =>
    rw [← List.append_assoc]
    exact .more (hgap.append hgap') hpart hrest

theorem Remainder.elements (h : Remainder .array u rest) (ht : Ahead t u) :
    ∃ gap cs w, gap.All isBlank ∧ Derives (.elements cs) w ∧ t = gap ++ (w ++ ']' :: rest) := by
  induction h generalizing t with
  | @last gap' rest hgap' =>
    obtain ⟨gap, c, w, hgap, hw, rfl⟩ := ht
    exact ⟨gap, [c], w ++ gap', hgap, .lastElement hw hgap', by simp [Bracket.closing]⟩
  | @more gap' v _ rest hgap' hv _ ih =>
    obtain ⟨gap, c, w, hgap, hw, rfl⟩ := ht
    obtain ⟨gap'', cs, w', hgap'', hcs, rfl⟩ := ih hv
    exact ⟨gap, c :: cs, w ++ (gap' ++ ',' :: (gap'' ++ w')), hgap, .moreElements hw hgap' hgap'' hcs, by simp⟩

theorem Remainder.members (h : Remainder .object u rest) (ht : PartAhead .object t u) :
    ∃ gap ms w, gap.All isBlank ∧ Derives (.members ms) w ∧ t = gap ++ (w ++ '\x7d' :: rest) := by
  induction h generalizing t with
  | @last last rest hlast =>
    obtain ⟨gap, k, ps, before, _, hgap, hk, hbefore, rfl, after, c, w, hafter, hw, rfl⟩ := ht
    exact ⟨gap, _, _, hgap, .lastMember (.member hk hbefore hafter hw hlast), by simp [Bracket.closing]⟩
  | @more last v _ rest hlast hv _ ih =>
    obtain ⟨gap, k, ps, before, _, hgap, hk, hbefore, rfl, after, c, w, hafter, hw, rfl⟩ := ht
    obtain ⟨gap', ms, w', hgap', hms, rfl⟩ := ih hv
    exact ⟨gap, _, _, hgap, .moreMembers (.member hk hbefore hafter hw hlast) hgap' hms, by simp⟩

/-- What stands behind an opening bracket: it closes at once, or there is a first part. -/
def Inside (b : Bracket) (t rest : Text) : Prop :=
  (∃ gap, gap.All isBlank ∧ t = gap ++ b.closing :: rest) ∨ ∃ u, PartAhead b t u ∧ Remainder b u rest

theorem Inside.blanks {b : Bracket} {gap : Text} (hgap : gap.All isBlank) (h : Inside b t rest) :
    Inside b (gap ++ t) rest := by
  obtain ⟨gap', hgap', rfl⟩ | ⟨u, hpart, hrest⟩ := h
  · exact .inl ⟨gap ++ gap', hgap.append hgap', by rw [List.append_assoc]⟩
  · exact .inr ⟨u, hpart.blanks hgap, hrest⟩

/-- The character that opens a bracket. -/
def opening : Bracket → Char
  | .array => '['
  | .object => '\x7b'

theorem Inside.ahead {b : Bracket} (h : Inside b t rest) : Ahead (opening b :: t) rest := by
  cases b with
  | array =>
    obtain ⟨gap, hgap, rfl⟩ | ⟨u, hpart, hrest⟩ := h
    · exact ⟨[], _, _, .nil, .emptyArray hgap, by simp [opening, Bracket.closing]⟩
    · obtain ⟨gap, cs, w, hgap, hcs, rfl⟩ := hrest.elements hpart
      exact ⟨[], _, _, .nil, .array hgap hcs, by simp [opening]⟩
  | object =>
    obtain ⟨gap, hgap, rfl⟩ | ⟨u, hpart, hrest⟩ := h
    · exact ⟨[], _, _, .nil, .emptyObject hgap, by simp [opening, Bracket.closing]⟩
    · obtain ⟨gap, ms, w, hgap, hms, rfl⟩ := hrest.members hpart
      exact ⟨[], _, _, .nil, .object hgap hms, by simp [opening]⟩

/-- What is left where brackets are open, the innermost first. -/
def Closes : List Bracket → Text → Text → Prop
  | [], t, rest => t = rest
  | b :: outer, t, rest => ∃ u, Remainder b t u ∧ Closes outer u rest

/-! ## Passing over values -/

namespace Skip

theorem exists_of_start {b? : Option Bracket} (h : start.run t = .ok (b?, u)) :
    (b? = none ∧ Ahead t u) ∨ ∃ b gap, b? = some b ∧ gap.All isBlank ∧ t = gap ++ opening b :: u := by
  obtain ⟨c, v, hpeek, hkind⟩ := run_bind_eq_ok_iff.1 h
  obtain ⟨gap, v', hgap, rfl, rfl⟩ := exists_of_peek hpeek
  split at hkind
  · cases hkind
    exact .inr ⟨.array, gap, rfl, hgap, rfl⟩
  · cases hkind
    exact .inr ⟨.object, gap, rfl, hgap, rfl⟩
  · obtain ⟨_, v, hadvance, hstring⟩ := run_bind_eq_ok_iff.1 hkind
    obtain ⟨_, v, hskip, hresult⟩ := run_bind_eq_ok_iff.1 hstring
    cases hadvance
    cases hresult
    obtain ⟨w, ps, hw, htext⟩ := Quoted.exists_of_skip hskip
    have htext : v' = w ++ '"' :: u := htext
    refine .inl ⟨rfl, Ahead.blanks hgap ?_⟩
    rw [htext]
    exact ⟨[], _, _, .nil, .string hw, by simp⟩
  · obtain ⟨_, v, hword, hresult⟩ := run_bind_eq_ok_iff.1 hkind
    cases hresult
    rw [eq_of_word hword]
    exact .inl ⟨rfl, Ahead.blanks hgap (Derives.null.ahead u)⟩
  · obtain ⟨_, v, hword, hresult⟩ := run_bind_eq_ok_iff.1 hkind
    cases hresult
    rw [eq_of_word hword]
    exact .inl ⟨rfl, Ahead.blanks hgap ((Derives.bool true).ahead u)⟩
  · obtain ⟨_, v, hword, hresult⟩ := run_bind_eq_ok_iff.1 hkind
    cases hresult
    rw [eq_of_word hword]
    exact .inl ⟨rfl, Ahead.blanks hgap ((Derives.bool false).ahead u)⟩
  · split at hkind
    · obtain ⟨_, v, hskip, hresult⟩ := run_bind_eq_ok_iff.1 hkind
      cases hresult
      have hscan : ∃ token, Token.scan.run (c :: v') = .ok (token, u) := by
        rw [StateT.run, Token.skip] at hskip
        split at hskip
        · rename_i token v hscan
          cases hskip
          exact ⟨token, hscan⟩
        · cases hskip
      obtain ⟨token, hscan⟩ := hscan
      obtain ⟨w, hw, htext⟩ := Token.exists_of_scan hscan
      rw [htext]
      exact .inl ⟨rfl, Ahead.blanks hgap ((Derives.number hw).ahead u)⟩
    · cases hkind

variable {n : Nat} {brackets outer : List Bracket} {b : Bracket}

/-- A value is taken in so many turns, and then all that is left of the brackets. -/
def Turns (n : Nat) : Prop :=
  ∀ brackets t rest, (values n brackets).run t = .ok ((), rest) → ∃ u, Ahead t u ∧ Closes brackets u rest

theorem exists_of_further (hn : Turns n) (h : (further n (b :: outer)).run t = .ok ((), rest)) :
    ∃ u, PartAhead b t u ∧ Closes (b :: outer) u rest := by
  cases b with
  | array => exact hn _ _ _ h
  | object =>
    obtain ⟨_, v, hkey, hvalues⟩ := run_bind_eq_ok_iff.1 h
    obtain ⟨u, hu, hcloses⟩ := hn _ _ _ hvalues
    obtain ⟨_, v₁, hquote, hkey⟩ := run_bind_eq_ok_iff.1 hkey
    obtain ⟨_, v₂, hskip, hcolon⟩ := run_bind_eq_ok_iff.1 hkey
    obtain ⟨gap, hgap, rfl⟩ := exists_of_expect hquote
    obtain ⟨k, ps, hk, rfl⟩ := Quoted.exists_of_skip hskip
    obtain ⟨gap', hgap', rfl⟩ := exists_of_expect hcolon
    exact ⟨u, ⟨gap, k, ps, gap', v, hgap, hk, hgap', rfl, hu⟩, hcloses⟩

/-- Behind a value, brackets close until a further part follows. -/
theorem closes_of_close (hn : Turns n) (h : (close brackets >>= further n).run t = .ok ((), rest)) :
    Closes brackets t rest := by
  induction brackets generalizing t with
  | nil =>
    cases h
    rfl
  | cons b outer ih =>
    obtain ⟨bs, v, hclose, hfurther⟩ := run_bind_eq_ok_iff.1 h
    obtain ⟨c, v', hpeek, hkind⟩ := run_bind_eq_ok_iff.1 hclose
    obtain ⟨gap, v'', hgap, rfl, rfl⟩ := exists_of_peek hpeek
    split at hkind
    · rename_i hcomma
      cases hkind
      obtain ⟨u, hpart, u', hremainder, hcloses⟩ := exists_of_further hn hfurther
      rw [eq_of_beq hcomma]
      exact ⟨u', .more hgap hpart hremainder, hcloses⟩
    · split at hkind
      · rename_i hclosing
        have hkind : (close outer).run v'' = .ok (bs, v) := hkind
        rw [eq_of_beq hclosing]
        exact ⟨v'', .last hgap, ih (run_bind_eq_ok_iff.2 ⟨bs, v, hkind, hfurther⟩)⟩
      · cases hkind

theorem exists_of_opened (hn : Turns n) (h : (opened b outer >>= further n).run t = .ok ((), rest)) :
    ∃ u, Inside b t u ∧ Closes outer u rest := by
  obtain ⟨bs, v, hopened, hfurther⟩ := run_bind_eq_ok_iff.1 h
  obtain ⟨c, v', hpeek, hkind⟩ := run_bind_eq_ok_iff.1 hopened
  obtain ⟨gap, v'', hgap, rfl, rfl⟩ := exists_of_peek hpeek
  split at hkind
  · rename_i hclosing
    have hkind : (close outer).run v'' = .ok (bs, v) := hkind
    rw [eq_of_beq hclosing]
    exact ⟨v'', .inl ⟨gap, hgap, rfl⟩, closes_of_close hn (run_bind_eq_ok_iff.2 ⟨bs, v, hkind, hfurther⟩)⟩
  · cases hkind
    obtain ⟨u, hpart, u', hremainder, hcloses⟩ := exists_of_further hn hfurther
    exact ⟨u', Inside.blanks hgap (.inr ⟨u, hpart, hremainder⟩), hcloses⟩

/-- Each turn takes a value without parts or the opening bracket of one with parts. -/
theorem turns (n : Nat) : Turns n := by
  induction n with
  | zero => exact fun _ _ _ h => nomatch h
  | succ n ih =>
    intro brackets t rest h
    rw [values_succ] at h
    obtain ⟨b?, v, hstart, hturn⟩ := run_bind_eq_ok_iff.1 h
    obtain ⟨rfl, hvalue⟩ | ⟨b, gap, rfl, hgap, rfl⟩ := exists_of_start hstart
    · exact ⟨v, hvalue, closes_of_close ih hturn⟩
    · obtain ⟨u, hinside, hcloses⟩ := exists_of_opened ih hturn
      exact ⟨u, Ahead.blanks hgap hinside.ahead, hcloses⟩

end Skip

/-! ## Readers -/

/-- What the reader takes is a value. -/
def OnlyValues (r : Reader α) : Prop := ∀ t a rest, r.run t = .ok (a, rest) → Ahead t rest

theorem Skip.onlyValues_value : OnlyValues Skip.value := by
  intro t _ rest h
  obtain ⟨_, v, hget, hvalues⟩ := run_bind_eq_ok_iff.1 h
  cases hget
  obtain ⟨u, hu, rfl⟩ := turns _ _ _ _ hvalues
  exact hu

theorem OnlyValues.map {β : Type} {r : Reader α} (h : OnlyValues r) (f : α → β) : OnlyValues (f <$> r) := by
  intro t b rest hrun
  obtain ⟨a, ha, -⟩ := run_map_eq_ok_iff.1 hrun
  exact h t a rest ha

theorem onlyValues_text : OnlyValues text := by
  intro t s rest h
  obtain ⟨c, v, hpeek, hkind⟩ := run_bind_eq_ok_iff.1 h
  obtain ⟨gap, v', hgap, rfl, rfl⟩ := exists_of_peek hpeek
  split at hkind
  · obtain ⟨_, v, hadvance, hread⟩ := run_bind_eq_ok_iff.1 hkind
    cases hadvance
    obtain ⟨w, ps, hw, htext⟩ := Quoted.exists_of_read hread
    have htext : v' = w ++ '"' :: rest := htext
    rw [htext]
    exact ⟨gap, _, _, hgap, .string hw, by simp⟩
  · exact absurd hkind (run_refuse _ _)

theorem onlyValues_optional {r : Reader α} (hr : OnlyValues r) : OnlyValues (optional r) := by
  intro t a rest h
  obtain ⟨c, v, hpeek, hkind⟩ := run_bind_eq_ok_iff.1 h
  obtain ⟨gap, v', hgap, rfl, rfl⟩ := exists_of_peek hpeek
  split at hkind
  · obtain ⟨_, v, hword, hresult⟩ := run_bind_eq_ok_iff.1 hkind
    cases hresult
    rw [eq_of_word hword]
    exact Ahead.blanks hgap (Derives.null.ahead rest)
  · exact Ahead.blanks hgap (hr.map some _ _ _ hkind)

/-! ## Lists and records -/

/-- What is left in a bracket before the first part, or behind one. -/
def Left (b : Bracket) : Bool → Text → Text → Prop
  | true => Inside b
  | false => Remainder b

variable {b : Bracket} {first : Bool}

theorem Left.blanks {gap : Text} (hgap : gap.All isBlank) (h : Left b first t rest) : Left b first (gap ++ t) rest := by
  cases first with
  | true => exact Inside.blanks hgap h
  | false => exact Remainder.blanks hgap h

theorem left_of_closing {gap : Text} (hgap : gap.All isBlank) : Left b first (gap ++ b.closing :: rest) rest := by
  cases first with
  | true => exact .inl ⟨gap, hgap, rfl⟩
  | false => exact .last hgap

/-- A further part, behind a comma unless it is the first one. -/
theorem left_of_part {gap : Text} (hgap : gap.All isBlank) (hpart : PartAhead b t u) (h : Left b false u rest) :
    Left b first (gap ++ (Layout.separator first ++ t)) rest := by
  cases first with
  | true => exact Inside.blanks hgap (.inr ⟨u, hpart, h⟩)
  | false => exact .more hgap hpart h

theorem exists_of_nextElement {more : Bool} (h : (nextElement first).run t = .ok (more, u)) :
    (more = false ∧ ∃ gap, gap.All isBlank ∧ t = gap ++ u)
      ∨ more = true ∧ ∃ gap gap', gap.All isBlank ∧ gap'.All isBlank
        ∧ t = gap ++ (Layout.separator first ++ (gap' ++ u)) := by
  obtain ⟨c, v, hpeek, hkind⟩ := run_bind_eq_ok_iff.1 h
  obtain ⟨gap, v', hgap, rfl, rfl⟩ := exists_of_peek hpeek
  split at hkind
  · cases hkind
    exact .inl ⟨rfl, gap, hgap, rfl⟩
  · cases first with
    | true =>
      cases hkind
      exact .inr ⟨rfl, gap, [], hgap, .nil, rfl⟩
    | false =>
      obtain ⟨_, x, hcomma, hbehind⟩ := run_bind_eq_ok_iff.1 hkind
      obtain ⟨d, y, hpeek', hfollows⟩ := run_bind_eq_ok_iff.1 hbehind
      obtain ⟨before, hbefore, htext⟩ := exists_of_expect hcomma
      obtain ⟨gap', z, hgap', rfl, rfl⟩ := exists_of_peek hpeek'
      split at hfollows
      · cases hfollows
      · cases hfollows
        refine .inr ⟨rfl, gap ++ before, gap', hgap.append hbefore, hgap', ?_⟩
        rw [htext]
        simp [Layout.separator]

/-- An element or the end of the list. -/
theorem left_of_listElements {r : Reader α} (hr : OnlyValues r) {n : Nat} {as : List α}
    (h : (listElements r n first).run t = .ok (as, rest)) : Left .array first t rest := by
  induction n generalizing first t as with
  | zero => cases h
  | succ n ih =>
    obtain ⟨more, u, hnext, hrest⟩ := run_bind_eq_ok_iff.1 h
    obtain ⟨rfl, gap, hgap, rfl⟩ | ⟨rfl, gap, gap', hgap, hgap', rfl⟩ := exists_of_nextElement hnext
    · obtain ⟨_, v, hclosing, hresult⟩ := run_bind_eq_ok_iff.1 hrest
      cases hresult
      obtain ⟨gap', hgap', rfl⟩ := exists_of_expect hclosing
      exact Left.blanks hgap (left_of_closing (b := .array) hgap')
    · obtain ⟨a, v, helement, hrest⟩ := run_bind_eq_ok_iff.1 hrest
      obtain ⟨as', v', hmore, hresult⟩ := run_bind_eq_ok_iff.1 hrest
      cases hresult
      exact left_of_part hgap (PartAhead.blanks (b := .array) hgap' (hr _ _ _ helement)) (ih hmore)

theorem onlyValues_list {r : Reader α} (hr : OnlyValues r) : OnlyValues (list r) := by
  intro t as rest h
  obtain ⟨c, v, hpeek, hkind⟩ := run_bind_eq_ok_iff.1 h
  obtain ⟨gap, v', hgap, rfl, rfl⟩ := exists_of_peek hpeek
  split at hkind
  · obtain ⟨_, v, hadvance, hread⟩ := run_bind_eq_ok_iff.1 hkind
    obtain ⟨w, v, hget, hread⟩ := run_bind_eq_ok_iff.1 hread
    cases hadvance
    cases hget
    exact Ahead.blanks hgap (Inside.ahead (left_of_listElements hr hread))
  · exact absurd hkind (run_refuse _ _)

section Records

variable {σ : Type} {fields : List (Field σ)}

/-- A record in the form of an array. -/
theorem left_of_arrayForm (hfields : ∀ f ∈ fields, OnlyValues f.read) {s s' : σ}
    (h : (arrayForm fields first s).run t = .ok (s', rest)) : Left .array first t rest := by
  induction fields generalizing first t s with
  | nil =>
    obtain ⟨_, v, hclosing, hresult⟩ := run_bind_eq_ok_iff.1 h
    cases hresult
    obtain ⟨gap, hgap, rfl⟩ := exists_of_expect hclosing
    exact left_of_closing (b := .array) hgap
  | cons f fields ih =>
    rw [List.forall_mem_cons] at hfields
    obtain ⟨more, u, hnext, hrest⟩ := run_bind_eq_ok_iff.1 h
    obtain ⟨rfl, gap, hgap, rfl⟩ | ⟨rfl, gap, gap', hgap, hgap', rfl⟩ := exists_of_nextElement hnext
    · have hrest : (if (f.absence == .initial) = true then arrayForm fields first s else throw .mismatch :
        Reader σ).run u = .ok (s', rest) := hrest
      split at hrest
      · exact Left.blanks hgap (ih hfields.2 hrest)
      · cases hrest
    · obtain ⟨change, v, hread, hmore⟩ := run_bind_eq_ok_iff.1 hrest
      exact left_of_part hgap (PartAhead.blanks (b := .array) hgap' (hfields.1 _ _ _ hread)) (ih hfields.2 hmore)

/-- A key and its quotes. -/
theorem exists_of_nextKey {k? : Option Text} (h : (nextKey first).run t = .ok (k?, u)) :
    (k? = none ∧ ∃ gap, gap.All isBlank ∧ t = gap ++ '\x7d' :: u)
      ∨ ∃ key gap gap' k ps, k? = some key ∧ gap.All isBlank ∧ gap'.All isBlank ∧ Quoted.Pieces k ps
        ∧ t = gap ++ (Layout.separator first ++ (gap' ++ '"' :: (k ++ '"' :: u))) := by
  have hkey : ∀ v, ((do expect '"'; return some (← Quoted.read) : Reader (Option Text)).run v) = .ok (k?, u) →
      ∃ key gap k ps, k? = some key ∧ gap.All isBlank ∧ Quoted.Pieces k ps ∧ v = gap ++ '"' :: (k ++ '"' :: u) := by
    intro v hv
    obtain ⟨_, x, hquote, hread⟩ := run_bind_eq_ok_iff.1 hv
    obtain ⟨key, y, hread, hresult⟩ := run_bind_eq_ok_iff.1 hread
    obtain ⟨gap, hgap, rfl⟩ := exists_of_expect hquote
    obtain ⟨k, ps, hk, rfl⟩ := Quoted.exists_of_read hread
    cases hresult
    exact ⟨key, gap, k, ps, rfl, hgap, hk, rfl⟩
  obtain ⟨c, v, hpeek, hkind⟩ := run_bind_eq_ok_iff.1 h
  obtain ⟨gap, v', hgap, rfl, rfl⟩ := exists_of_peek hpeek
  split at hkind
  · rename_i hclosing
    cases hkind
    rw [eq_of_beq hclosing]
    exact .inl ⟨rfl, gap, hgap, rfl⟩
  · cases first with
    | true =>
      obtain ⟨key, gap', k, ps, rfl, hgap', hk, htext⟩ := hkey _ hkind
      exact .inr ⟨key, gap, gap', k, ps, rfl, hgap, hgap', hk, by rw [htext]; rfl⟩
    | false =>
      obtain ⟨_, x, hcomma, hnext⟩ := run_bind_eq_ok_iff.1 hkind
      obtain ⟨before, hbefore, htext⟩ := exists_of_expect hcomma
      obtain ⟨key, gap', k, ps, rfl, hgap', hk, rfl⟩ := hkey _ hnext
      refine .inr ⟨key, gap ++ before, gap', k, ps, rfl, hgap.append hbefore, hgap', hk, ?_⟩
      rw [htext]
      simp [Layout.separator]

/-- A member or the end of the object. -/
theorem left_of_members (hfields : ∀ f ∈ fields, OnlyValues f.read) {n : Nat} {seen keys : List Text} {s s' : σ}
    (h : (members fields n first seen s).run t = .ok ((keys, s'), rest)) : Left .object first t rest := by
  induction n generalizing first t seen s with
  | zero => cases h
  | succ n ih =>
    obtain ⟨k?, u, hnext, hrest⟩ := run_bind_eq_ok_iff.1 h
    obtain ⟨rfl, gap, hgap, rfl⟩ | ⟨key, gap, gap', k, ps, rfl, hgap, hgap', hk, rfl⟩ := exists_of_nextKey hnext
    · cases hrest
      exact left_of_closing (b := .object) hgap
    · -- a field or not, behind the key comes a colon and then a value
      have hmember : ∀ v w, (expect ':').run u = .ok ((), v) → Ahead v w → Left .object false w rest →
          Left .object first (gap ++ (Layout.separator first ++ (gap' ++ '"' :: (k ++ '"' :: u)))) rest := by
        intro v w hcolon hvalue hleft
        obtain ⟨before, hbefore, rfl⟩ := exists_of_expect hcolon
        exact left_of_part hgap ⟨gap', k, ps, before, v, hgap', hk, hbefore, rfl, hvalue⟩ hleft
      dsimp only at hrest
      split at hrest
      · obtain ⟨_, v, hcolon, hrest⟩ := run_bind_eq_ok_iff.1 hrest
        obtain ⟨_, w, hvalue, hrest⟩ := run_bind_eq_ok_iff.1 hrest
        exact hmember v w hcolon (Skip.onlyValues_value _ _ _ hvalue) (ih hrest)
      · rename_i f hf
        split at hrest
        · obtain ⟨_, v, hthrow, -⟩ := run_bind_eq_ok_iff.1 hrest
          cases hthrow
        · obtain ⟨_, v, hcolon, hrest⟩ := run_bind_eq_ok_iff.1 hrest
          obtain ⟨change, w, hvalue, hrest⟩ := run_bind_eq_ok_iff.1 hrest
          exact hmember v w hcolon (hfields f (List.mem_of_find?_eq_some hf) _ _ _ hvalue) (ih hrest)

theorem onlyValues_record (hfields : ∀ f ∈ fields, OnlyValues f.read) (initial : σ) :
    OnlyValues (record fields initial) := by
  intro t s rest h
  obtain ⟨c, v, hpeek, hkind⟩ := run_bind_eq_ok_iff.1 h
  obtain ⟨gap, v', hgap, rfl, rfl⟩ := exists_of_peek hpeek
  split at hkind
  · obtain ⟨_, v, hadvance, hread⟩ := run_bind_eq_ok_iff.1 hkind
    obtain ⟨w, v, hget, hread⟩ := run_bind_eq_ok_iff.1 hread
    obtain ⟨⟨keys, s'⟩, v, hmembers, hresult⟩ := run_bind_eq_ok_iff.1 hread
    cases hadvance
    cases hget
    dsimp only at hresult
    split at hresult
    · cases hresult
      exact Ahead.blanks hgap (Inside.ahead (b := .object) (left_of_members hfields hmembers))
    · cases hresult
  · obtain ⟨_, v, hadvance, hread⟩ := run_bind_eq_ok_iff.1 hkind
    cases hadvance
    exact Ahead.blanks hgap (Inside.ahead (b := .array) (left_of_arrayForm hfields hread))
  · exact absurd hkind (run_refuse _ _)

end Records

end Watermark.Json
