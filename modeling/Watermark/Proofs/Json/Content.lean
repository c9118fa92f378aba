import Watermark.Proofs.Json.Float
import Watermark.Proofs.Json.Pieces

/-!
# Values are read by their content

A reader of single values makes of any value of the grammar what its content says, and refuses all other contents.
`Takes` states this wherever the value stands: `takes_text`, `takes_bool`, `takes_float` and `takes_int64`.

Each reader looks at the first character, which tells the kind of value (`Content.begins`). Numbers of every spelling
are floats if they are in range (`Token.value`); only those that are written as a whole number (`Token.IsInt`) are one.
-/

namespace Watermark.Json

variable {α β : Type}

/-! ## What a content is as a value of one kind -/

namespace Content

def text? : Content → Option Text
  | string t => t
  | _ => none

def bool? : Content → Option Bool
  | bool b => some b
  | _ => none

def numeral? : Content → Option Numeral
  | number t => t.value.toOption
  | _ => none

/-- The float that a number in range is read as. -/
def float? (c : Content) : Option Binary64 := c.numeral?.map Numeral.toBinary64

/-- A whole number from `low` to `high`. -/
def within? (low high : Int) : Content → Option Int
  | number t => if t.IsInt ∧ low ≤ t.int ∧ t.int ≤ high then some t.int else none
  | _ => none

/-- A whole number of 64 bits with a sign. -/
def int64? (c : Content) : Option Int64 := (c.within? Int64.minValue.toInt Int64.maxValue.toInt).map .ofInt

theorem eq_string_of_begins {c : Content} (h : c.begins '"' = true) : ∃ t, c = .string t := by
  cases c with
  | string t => exact ⟨t, rfl⟩
  | bool b => cases b <;> cases h
  | _ => cases h

theorem eq_true_of_begins {c : Content} (h : c.begins 't' = true) : c = .bool true := by
  cases c with
  | bool b =>
    cases b
    · cases h
    · rfl
  | _ => cases h

theorem eq_false_of_begins {c : Content} (h : c.begins 'f' = true) : c = .bool false := by
  cases c with
  | bool b =>
    cases b
    · rfl
    · cases h
  | _ => cases h

theorem eq_number_of_begins {c : Content} {d : Char} (h : c.begins d = true) (hd : (d == '-' || d.isDigit) = true) :
    ∃ t, c = .number t := by
  cases c with
  | number t => exact ⟨t, rfl⟩
  | bool b => cases b <;> (rw [eq_of_beq h] at hd; exact absurd hd (by decide))
  | _ => rw [eq_of_beq h] at hd; exact absurd hd (by decide)

end Content

/-! ## Reading -/

/-- `r` makes of every value what `take` makes of its content, none meaning that it is refused. -/
def Takes (r : Reader α) (take : Content → Option α) : Prop :=
  ∀ c w gap rest, Derives (.value c) w → gap.All isBlank → Ends rest →
    (r.run (gap ++ (w ++ rest))).toOption = (take c).map (·, rest)

theorem Takes.map {r : Reader α} {take : Content → Option α} (h : Takes r take) (f : α → β) :
    Takes (f <$> r) fun c => (take c).map f := by
  intro c w gap rest hw hgap hrest
  rw [toOption_run_map, h c w gap rest hw hgap hrest, Option.map_map, Option.map_map]
  rfl

theorem toOption_refuse (t : Text) : ((refuse : Reader α).run t).toOption = none := by
  cases h : (refuse : Reader α).run t with
  | error e => rfl
  | ok p => exact absurd h (run_refuse t p)

/-- The first character of a value is looked at. -/
theorem run_peek_value {c : Content} {w gap : Text} (h : Derives (.value c) w) (hgap : gap.All isBlank) (rest : Text) :
    ∃ d, peek.run (gap ++ (w ++ rest)) = .ok (d, w ++ rest) ∧ c.begins d = true := by
  obtain ⟨d, u, rfl, hd⟩ := h.exists_cons
  exact ⟨d, run_peek hgap (Content.not_isBlank_of_begins hd), hd⟩

theorem takes_text : Takes text Content.text? := by
  intro c w gap rest h hgap hrest
  obtain ⟨d, hpeek, hd⟩ := run_peek_value h hgap rest
  rw [text, run_bind_of_ok hpeek]
  split
  · obtain ⟨t, rfl⟩ := Content.eq_string_of_begins hd
    cases h with
    | @string w ps hw =>
      have hread := Quoted.read_pieces hw rest
      rw [List.cons_append, List.append_assoc]
      exact hread
  · rename_i hne
    rw [toOption_refuse]
    cases c with
    | string t => exact absurd (eq_of_beq hd) hne
    | _ => rfl

theorem takes_bool : Takes bool Content.bool? := by
  intro c w gap rest h hgap hrest
  obtain ⟨d, hpeek, hd⟩ := run_peek_value h hgap rest
  rw [bool, run_bind_of_ok hpeek]
  split
  · obtain rfl := Content.eq_true_of_begins hd
    cases h
    exact congrArg Except.toOption (run_bind_of_ok (run_word "true".toList rest))
  · obtain rfl := Content.eq_false_of_begins hd
    cases h
    exact congrArg Except.toOption (run_bind_of_ok (run_word "false".toList rest))
  · rename_i htrue hfalse
    rw [toOption_refuse]
    cases c with
    | bool b =>
      cases b
      · exact absurd (eq_of_beq hd) hfalse
      · exact absurd (eq_of_beq hd) htrue
    | _ => rfl

theorem takes_numeral : Takes numeral Content.numeral? := by
  intro c w gap rest h hgap hrest
  cases c with
  | number t =>
    cases h with
    | number hw =>
      rw [reads_numeral hw gap rest hgap hrest, toOption_map]
      rfl
  | _ =>
    obtain ⟨d, hpeek, hd⟩ := run_peek_value h hgap rest
    rw [numeral, run_bind_of_ok hpeek]
    split
    · rename_i hnumber
      obtain ⟨t, ht⟩ := Content.eq_number_of_begins hd hnumber
      cases ht
    · exact toOption_refuse _

/-- A number in range is read as a float, whole or not. -/
theorem takes_float : Takes float Content.float? := by
  rw [float_eq_map]
  exact takes_numeral.map _

/-! ## Whole numbers -/

/-- What is whole and within 64 bits is read as written, and nothing else is whole. -/
theorem Token.within?_value (t : Token) {low high : Int} (hlow : Int64.minValue.toInt ≤ low)
    (hhigh : high < significandLimit) :
    t.value.toOption.bind (Numeral.within? low high)
      = if t.IsInt ∧ low ≤ t.int ∧ t.int ≤ high then some t.int else none := by
  rw [value_eq]
  split
  · rename_i hwhole
    show Numeral.within? low high (.whole t.int) = _
    exact if_congr ⟨fun h => ⟨hwhole.1, h⟩, fun h => h.2⟩ rfl rfl
  · rename_i hwhole
    have hnot : ¬(t.IsInt ∧ low ≤ t.int ∧ t.int ≤ high) := fun h => hwhole ⟨h.1, by omega, by omega⟩
    rw [if_neg hnot]
    cases t.float <;> rfl

theorem takes_within {low high : Int} (hlow : Int64.minValue.toInt ≤ low) (hhigh : high < significandLimit) :
    Takes (within low high) (Content.within? low high) := by
  intro c w gap rest h hgap hrest
  have htake : c.within? low high = c.numeral?.bind (Numeral.within? low high) := by
    cases c with
    | number t => exact (t.within?_value hlow hhigh).symm
    | _ => rfl
  rw [within, toOption_run_bind, takes_numeral c w gap rest h hgap hrest, htake]
  cases c.numeral? with
  | none => rfl
  | some n =>
    rw [Option.map_some, Option.bind_some, Option.bind_some]
    dsimp only
    cases n.within? low high <;> rfl

theorem takes_int64 : Takes int64 Content.int64? := by
  have hread : int64 = Int64.ofInt <$> within Int64.minValue.toInt Int64.maxValue.toInt := (map_eq_pure_bind _ _).symm
  rw [hread]
  exact (takes_within (Int.le_refl _) (by decide)).map _

end Watermark.Json
