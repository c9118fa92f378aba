import Watermark.Json.Number
import Watermark.Json.Quoted

/-!
# Passing over a JSON value

A value that nobody wants still has to be JSON. `Skip.value` passes over it with the open brackets on a list and
not by recursion, so values may be nested to any depth. Each turn of the loop is one value without parts or one
opening bracket, then all brackets that close behind it; so it takes a character, and the length of the text
bounds the number of turns.

Only two faults can arise: the text ends, or it is not JSON.
-/

namespace Watermark.Json.Skip

/-- An open bracket. -/
inductive Bracket where
  | array
  | object
deriving DecidableEq

def Bracket.closing : Bracket → Char
  | .array => ']'
  | .object => '}'

/-- Passes over the key of a member and its colon. -/
def key : Reader Unit := do
  expect '"'
  Quoted.skip
  expect ':'

/-- Passes over a key where the innermost open bracket is that of an object. -/
def keyIn : List Bracket → Reader Unit
  | .object :: _ => key
  | _ => return

/-- What begins a value: a value without parts is passed over whole, of one with parts the opening bracket. -/
def start : Reader (Option Bracket) := do
  match ← peek with
  | '[' => do advance; return some .array
  | '{' => do advance; return some .object
  | '"' => do advance; Quoted.skip; return none
  | 'n' => do word "null".toList; return none
  | 't' => do word "true".toList; return none
  | 'f' => do word "false".toList; return none
  | c => if c == '-' || c.isDigit then do Token.skip; return none else throw .malformed

/-- Behind a value: passes over the brackets that close, and over a comma if a further value follows. Gives the
brackets that stay open. -/
def close : List Bracket → Reader (List Bracket)
  | [] => return []
  | b :: outer => do
    let c ← peek
    if c == ',' then do advance; return b :: outer
    else if c == b.closing then do advance; close outer
    else throw .malformed

/-- Behind an opening bracket, which may close at once. -/
def opened (b : Bracket) (outer : List Bracket) : Reader (List Bracket) := do
  if (← peek) == b.closing then do advance; close outer else return b :: outer

/-- Passes over values until no bracket is open, in at most `n` turns. -/
def values : Nat → List Bracket → Reader Unit
  | 0, _ => throw .truncated
  | n + 1, brackets => do
    let brackets ← match ← start with
      | some b => opened b brackets
      | none => close brackets
    if brackets.isEmpty then return
    keyIn brackets
    values n brackets

/-- Passes over one value. -/
def value : Reader Unit := do values ((← get).length + 1) []

end Watermark.Json.Skip
