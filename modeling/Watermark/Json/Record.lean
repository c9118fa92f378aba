import Watermark.Json.Skip

/-!
# Reading values of a known shape

The readers of this module know what they want: a text, a flag, a number, a list, a value that may be `null`, or a
record (`record`). A record is an object with its members in any order, or an array with the fields in their own
order. In an object unknown members are passed over and a known one must not occur twice; in an array nothing may
follow the last field. What a missing field means is part of the field (`Absence`).

Where something else stands, its first part is read nevertheless (`refuse`): text that is no JSON is reported as
that, and not as a value of the wrong kind.
-/

namespace Watermark.Json

/-- Refuses the value at hand: it is of another kind, unless it is no JSON at all. -/
def refuse {α : Type} : Reader α := do
  match ← peek with
  | '"' => do advance; let _ ← Quoted.read
  | 'n' => word "null".toList
  | 't' => word "true".toList
  | 'f' => word "false".toList
  | '[' | '{' => pure ()
  | c => if c == '-' || c.isDigit then let _ ← Numeral.read else throw .malformed
  throw .mismatch

/-! ## Single values -/

def text : Reader Text := do
  match ← peek with
  | '"' => do advance; Quoted.read
  | _ => refuse

def bool : Reader Bool := do
  match ← peek with
  | 't' => do word "true".toList; return true
  | 'f' => do word "false".toList; return false
  | _ => refuse

def numeral : Reader Numeral := do
  let c ← peek
  if c == '-' || c.isDigit then Numeral.read else refuse

/-- Any number, as a float. -/
def float : Reader Binary64 := return (← numeral).toBinary64

/-- A whole number from `low` to `high`, written without point and exponent. -/
def within (low high : Int) : Reader Int := do
  match (← numeral).within? low high with
  | some n => return n
  | none => throw .mismatch

/-- A whole number of 64 bits with a sign. -/
def int64 : Reader Int64 := return .ofInt (← within Int64.minValue.toInt Int64.maxValue.toInt)

/-- A whole number of 64 bits without a sign. -/
def uint64 : Reader UInt64 := return .ofNat (← within 0 (UInt64.size - 1)).toNat

/-- A value, or none for `null`. -/
def optional {α : Type} (r : Reader α) : Reader (Option α) := do
  match ← peek with
  | 'n' => do word "null".toList; return none
  | _ => some <$> r

/-- One of the values listed, by its name: a string, or an object with the name as its only key and `null`. What
stands in the place of the key has to be a string. -/
def variant {α : Type} (name : α → Text) (all : List α) : Reader α := do
  let named : Reader α := do
    let w ← text
    match all.find? fun a => name a == w with
    | some a => return a
    | none => throw .mismatch
  match ← peek with
  | '"' => named
  | '{' => do
    advance
    if (← peek) != '"' then throw .malformed
    let a ← named
    expect ':'
    match ← peek with
    | 'n' => word "null".toList
    | _ => refuse
    expect '}'
    return a
  | _ => throw .malformed

/-! ## Lists -/

/-- Whether a further element follows; the closing bracket stays where it is. -/
def nextElement (first : Bool) : Reader Bool := do
  if (← peek) == ']' then return false
  unless first do
    expect ','
    if (← peek) == ']' then throw .malformed
  return true

/-- Elements up to the closing bracket, at most `n`. -/
def listElements {α : Type} (r : Reader α) : Nat → Bool → Reader (List α)
  | 0, _ => throw .truncated
  | n + 1, first => do
    if ← nextElement first then do
      let a ← r
      return a :: (← listElements r n false)
    else do
      expect ']'
      return []

/-- A list of values. An element takes a character, so the length of the text bounds their number. -/
def list {α : Type} (r : Reader α) : Reader (List α) := do
  match ← peek with
  | '[' => do advance; listElements r ((← get).length + 1) true
  | _ => refuse

/-! ## Records -/

/-- What a missing field means. -/
inductive Absence where
  /-- The field keeps its initial value. -/
  | initial
  /-- The field keeps its initial value in an object; an array has to have it. -/
  | initialInObject
  /-- The record is refused. -/
  | refused
deriving DecidableEq

/-- A field of a record: its key, and how its value changes the record. -/
structure Field (σ : Type) where
  key : Text
  absence : Absence
  read : Reader (σ → σ)

/-- The field whose value is read by `r` and stored by `store`. -/
def Field.of {σ α : Type} (key : String) (absence : Absence) (r : Reader α) (store : α → σ → σ) : Field σ :=
  ⟨key.toList, absence, store <$> r⟩

variable {σ : Type}

/-- The key of the next member, none behind the closing brace. -/
def nextKey (first : Bool) : Reader (Option Text) := do
  if (← peek) == '}' then do advance; return none
  unless first do expect ','
  expect '"'
  return some (← Quoted.read)

/-- Members up to the closing brace, at most `n`: the keys of the fields that occur and the record. -/
def members (fields : List (Field σ)) : Nat → Bool → List Text → σ → Reader (List Text × σ)
  | 0, _, _, _ => throw .truncated
  | n + 1, first, seen, s => do
    match ← nextKey first with
    | none => return (seen, s)
    | some k =>
      match fields.find? fun f => f.key == k with
      | none => do
        expect ':'
        Skip.value
        members fields n false seen s
      | some f => do
        if seen.contains k then throw .mismatch
        expect ':'
        let change ← f.read
        members fields n false (k :: seen) (change s)

/-- A record as an object, behind the opening brace. -/
def objectForm (fields : List (Field σ)) (initial : σ) : Reader σ := do
  let (seen, s) ← members fields ((← get).length + 1) true [] initial
  if fields.all fun f => f.absence != .refused || seen.contains f.key then return s else throw .mismatch

/-- A record as an array, behind the opening bracket. -/
def arrayForm : List (Field σ) → Bool → σ → Reader σ
  | [], _, s => do
    expect ']'
    return s
  | f :: fields, first, s => do
    if ← nextElement first then do
      let change ← f.read
      arrayForm fields false (change s)
    else if f.absence == .initial then arrayForm fields first s
    else throw .mismatch

/-- A record that starts from `initial`. -/
def record (fields : List (Field σ)) (initial : σ) : Reader σ := do
  match ← peek with
  | '{' => do advance; objectForm fields initial
  | '[' => do advance; arrayForm fields true initial
  | _ => refuse

end Watermark.Json
