/-!
# Text

Everything the library reads and writes is text, a list of Unicode characters. A program meets text as a
`String` only at its edge: `String.toList` and `String.ofList` convert there.

The module holds what the other modules need of lists of characters: which characters are blank (`Text.isBlank`),
trimming (`Text.trim`), numerals for whole numbers (`Text.ofNat`, `Text.ofInt`) and lines (`Text.lines`).
-/

namespace Watermark

/-- A text is the list of its characters. -/
abbrev Text := List Char

namespace Text

/-! ## Blank characters -/

/-- A range of characters, from its first to its last code point. -/
abbrev CodeRange := Nat × Nat

/-- The characters with the Unicode property `White_Space`. -/
def blankRanges : List CodeRange :=
  [(0x09, 0x0D), (0x20, 0x20), (0x85, 0x85), (0xA0, 0xA0), (0x1680, 0x1680), (0x2000, 0x200A),
    (0x2028, 0x2029), (0x202F, 0x202F), (0x205F, 0x205F), (0x3000, 0x3000)]

/-- A blank is a character with the Unicode property `White_Space`. -/
def isBlank (c : Char) : Bool :=
  blankRanges.any fun (first, last) => first ≤ c.toNat && c.toNat ≤ last

/-- The property has twenty-five characters. -/
example : (blankRanges.foldl (fun n (first, last) => n + (last + 1 - first)) 0) = 25 := rfl

/-! ## Trimming -/

/-- The text without its longest end in `p`. -/
def dropTrailing (p : Char → Bool) (t : Text) : Text := (t.reverse.dropWhile p).reverse

/-- The text without the blanks at its two ends. -/
def trim (t : Text) : Text := dropTrailing isBlank (t.dropWhile isBlank)

/-- A text of blanks only, among them the empty text. -/
def allBlank (t : Text) : Bool := t.all isBlank

/-! ## Numerals and lines -/

/-- The decimal numeral of a natural number. -/
def ofNat (n : Nat) : Text := Nat.toDigits 10 n

/-- The decimal numeral of an integer, with a minus sign before a negative one. -/
def ofInt : Int → Text
  | .ofNat n => ofNat n
  | .negSucc n => '-' :: ofNat (n + 1)

/-- The lines with a line feed between each two, and none at the end. -/
def lines (ls : List Text) : Text := List.intercalate ['\n'] ls

end Text

end Watermark
