import Watermark.Json.Reader

/-!
# JSON strings

`Quoted.encode` writes a text between quotes, with the two quoting characters and the control characters escaped
and all else as it is. `Quoted.read` reads every string that JSON allows, so it also knows the escapes that are
never written: `\/` and any character by the one or two code units of its UTF-16 form. A code unit that is half of
a pair needs its other half right behind it. `Quoted.skip` passes over a string that nobody wants; there the halves
of pairs may stand alone.
-/

namespace Watermark.Json.Quoted

/-! ## Hexadecimal digits -/

/-- The value of a hexadecimal digit of either case. -/
def hexValue? (c : Char) : Option Nat :=
  if c.isDigit then some (c.toNat - '0'.toNat)
  else if 'a' ≤ c && c ≤ 'f' then some (c.toNat - 'a'.toNat + 10)
  else if 'A' ≤ c && c ≤ 'F' then some (c.toNat - 'A'.toNat + 10)
  else none

/-- The hexadecimal digit of a number below sixteen, in lower case. -/
def hexDigit (n : Nat) : Char := if n < 10 then Char.ofNat ('0'.toNat + n) else Char.ofNat ('a'.toNat + (n - 10))

theorem hexValue?_hexDigit {n : Nat} (h : n < 16) : hexValue? (hexDigit n) = some n := by
  have hall : ∀ m : Fin 16, hexValue? (hexDigit m.val) = some m.val := by decide
  exact hall ⟨n, h⟩

/-! ## Writing -/

/-- A character as it stands between the quotes. -/
def encodeChar (c : Char) : Text :=
  if c = '"' then "\\\"".toList
  else if c = '\\' then "\\\\".toList
  else if c = '\x08' then "\\b".toList
  else if c = '\x0c' then "\\f".toList
  else if c = '\n' then "\\n".toList
  else if c = '\r' then "\\r".toList
  else if c = '\t' then "\\t".toList
  else if c.toNat < 0x20 then "\\u00".toList ++ [hexDigit (c.toNat / 16), hexDigit (c.toNat % 16)]
  else [c]

/-- The text between quotes. -/
def encode (t : Text) : Text := '"' :: t.flatMap encodeChar ++ ['"']

/-! ## Escapes -/

/-- What a single letter behind a backslash stands for. -/
def simpleEscape? : Char → Option Char
  | '"' => some '"'
  | '\\' => some '\\'
  | '/' => some '/'
  | 'b' => some '\x08'
  | 'f' => some '\x0c'
  | 'n' => some '\n'
  | 'r' => some '\r'
  | 't' => some '\t'
  | _ => none

/-- The code unit that four hexadecimal digits denote. A text that ends within the next four bytes is truncated,
whatever these are. -/
def codeUnit : Text → Except Fault Nat
  | a :: b :: c :: d :: _ =>
    match hexValue? a, hexValue? b, hexValue? c, hexValue? d with
    | some a, some b, some c, some d => .ok (((a * 16 + b) * 16 + c) * 16 + d)
    | _, _, _, _ => .error .malformed
  | short => .error (if (String.ofList short).utf8ByteSize < 4 then .truncated else .malformed)

/-- The first half of a pair of code units. -/
def isLeading (u : Nat) : Bool := 0xD800 ≤ u && u ≤ 0xDBFF

/-- The second half of a pair of code units. -/
def isTrailing (u : Nat) : Bool := 0xDC00 ≤ u && u ≤ 0xDFFF

/-- The character that a pair of code units stands for. -/
def ofPair (leading trailing : Nat) : Char :=
  Char.ofNat ((leading - 0xD800) * 0x400 + (trailing - 0xDC00) + 0x10000)

/-- The second half of a pair, which is an escape of its own. -/
def trailingUnit : Text → Except Fault Nat
  | [] | ['\\'] => .error .truncated
  | '\\' :: 'u' :: rest => do
    let v ← codeUnit rest
    if isTrailing v then return v else throw .malformed
  | _ => .error .malformed

/-- The character of an escape, and how many characters the escape has behind its backslash. -/
def escape : Text → Except Fault (Char × Nat)
  | [] => .error .truncated
  | 'u' :: rest => do
    let u ← codeUnit rest
    if isTrailing u then throw .malformed
    else if isLeading u then return (ofPair u (← trailingUnit (rest.drop 4)), 11)
    else return (Char.ofNat u, 5)
  | c :: _ =>
    match simpleEscape? c with
    | some d => .ok (d, 1)
    | none => .error .malformed

/-- As `escape`, for a string that nobody wants: a code unit is not looked at, and stands for no character. -/
def looseEscape : Text → Except Fault (Char × Nat)
  | 'u' :: rest => do
    let _ ← codeUnit rest
    return ('\ufffd', 5)
  | t => escape t

/-! ## Reading -/

/-- The characters up to the closing quote and what follows it. The first `passed` characters belong to an escape
that has been read already. -/
def chars (escape : Text → Except Fault (Char × Nat)) : (passed : Nat) → Text → Except Fault (Text × Text)
  | _, [] => .error .truncated
  | passed + 1, _ :: rest => chars escape passed rest
  | 0, '"' :: rest => .ok ([], rest)
  | 0, '\\' :: rest => do
    let (c, size) ← escape rest
    let (t, rest) ← chars escape size rest
    return (c :: t, rest)
  | 0, c :: rest =>
    if c.toNat < 0x20 then .error .malformed
    else do
      let (t, rest) ← chars escape 0 rest
      return (c :: t, rest)

/-- The text of a string behind its opening quote. -/
def read : Reader Text := fun t => chars escape 0 t

/-- Passes over a string behind its opening quote. -/
def skip : Reader Unit := fun t => do return ((), (← chars looseEscape 0 t).2)

end Watermark.Json.Quoted
