import Watermark.Text

/-!
# Reading JSON

A `Json.Reader` takes what it needs from the front of a text and leaves the rest, or stops at the first fault. A
fault is one of three kinds (`Fault`); which one is reported depends only on what comes first in the text.

The readers of strings, numbers and records are built on the few steps of this module: looking at the next
character behind blanks (`peek`), taking characters, and reading a whole text (`readAll`).
-/

namespace Watermark.Json

/-- Why a text was refused. -/
inductive Fault where
  /-- The text is not JSON from some place on. -/
  | malformed
  /-- The text ends before the value does. -/
  | truncated
  /-- The text is JSON so far, but not what is wanted at this place. -/
  | mismatch
deriving DecidableEq, Repr

/-- Takes characters from the front of a text. -/
abbrev Reader := StateT Text (Except Fault)

/-- The four characters that may stand between the parts of a JSON text. -/
def isBlank (c : Char) : Bool := c == ' ' || c == '\t' || c == '\n' || c == '\r'

def skipBlanks : Reader Unit := modify fun t => t.dropWhile isBlank

/-- The next character, which stays where it is. -/
def look? : Reader (Option Char) := do return (← get).head?

/-- The next character behind blanks, which stays where it is; the text must not end. -/
def peek : Reader Char := do
  skipBlanks
  match ← look? with
  | some c => return c
  | none => throw .truncated

/-- Takes one character. -/
def advance : Reader Unit := modify List.tail

/-- Takes the next character behind blanks, which has to be `c`. -/
def expect (c : Char) : Reader Unit := do
  if (← peek) == c then advance else throw .malformed

/-- Takes the letters of a word. -/
def word : Text → Reader Unit
  | [] => return
  | c :: w => do
    match ← look? with
    | none => throw .truncated
    | some d => if c == d then do advance; word w else throw .malformed

/-- Reads a text that holds one value and nothing else but blanks. -/
def readAll {α : Type} (r : Reader α) (t : Text) : Except Fault α := do
  let (a, rest) ← r.run t
  if (rest.dropWhile isBlank).isEmpty then return a else throw .malformed

end Watermark.Json
