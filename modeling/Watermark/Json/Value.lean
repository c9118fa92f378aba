import Watermark.Json.Quoted
import Watermark.Number.Notation

/-!
# Writing JSON

A `Json.Value` is what is written; `Value.compact` writes it without blanks and `Value.pretty` with one member or
element a line, indented by two blanks a level. Members keep their order.
-/

namespace Watermark.Json

/-- A JSON value, numbers kept apart by what they denote. -/
inductive Value where
  | null
  | bool (b : Bool)
  | whole (n : Int)
  | float (x : Binary64)
  | text (t : Text)
  | array (items : List Value)
  | object (members : List (Text × Value))

namespace Value

/-- The value itself, or `null` for none. -/
def ofOption : Option Text → Value
  | some t => .text t
  | none => .null

/-- A number; JSON has no infinities and no not-a-number, so these become `null`. -/
def floatText (x : Binary64) : Text := x.exchange?.getD "null".toList

def boolText (b : Bool) : Text := if b then "true".toList else "false".toList

/-! ## Without blanks -/

mutual

/-- The value without blanks. -/
def compact : Value → Text
  | null => "null".toList
  | bool b => boolText b
  | whole n => Text.ofInt n
  | float x => floatText x
  | text t => Quoted.encode t
  | array items => '[' :: List.intercalate [','] (compactItems items) ++ [']']
  | object members => '\x7b' :: List.intercalate [','] (compactMembers members) ++ ['\x7d']

def compactItems : List Value → List Text
  | [] => []
  | v :: rest => v.compact :: compactItems rest

def compactMembers : List (Text × Value) → List Text
  | [] => []
  | (k, v) :: rest => (Quoted.encode k ++ ':' :: v.compact) :: compactMembers rest

end

/-! ## With a line for each part -/

/-- A line feed and the blanks of a level. -/
def newLine (level : Nat) : Text := '\n' :: List.replicate (2 * level) ' '

/-- Parts between brackets, each on a line of the level below `level`; no line at all where there is no part. -/
def block (level : Nat) (opening closing : Char) : List Text → Text
  | [] => [opening, closing]
  | parts =>
    opening :: newLine (level + 1) ++ List.intercalate (',' :: newLine (level + 1)) parts ++ newLine level
      ++ [closing]

mutual

/-- The value with a line for each part, at a level. -/
def prettyAt : Nat → Value → Text
  | _, null => "null".toList
  | _, bool b => boolText b
  | _, whole n => Text.ofInt n
  | _, float x => floatText x
  | _, text t => Quoted.encode t
  | level, array items => block level '[' ']' (prettyItems (level + 1) items)
  | level, object members => block level '\x7b' '\x7d' (prettyMembers (level + 1) members)

def prettyItems : Nat → List Value → List Text
  | _, [] => []
  | level, v :: rest => v.prettyAt level :: prettyItems level rest

def prettyMembers : Nat → List (Text × Value) → List Text
  | _, [] => []
  | level, (k, v) :: rest => (Quoted.encode k ++ ": ".toList ++ v.prettyAt level) :: prettyMembers level rest

end

/-- The value with a line for each part, without a line feed at the end. -/
def pretty (v : Value) : Text := v.prettyAt 0

end Value

end Watermark.Json
