import Watermark.Text

/-!
# The two script languages

A batch is a script for `cmd.exe` or for a POSIX shell. The module holds what does not depend on the edit: the
names of the dialects, how each joins paths (`Dialect.join`) and how each writes text inside double quotes so that
it is read back as it is (`Dialect.escape`).
-/

namespace Watermark

/-- A script language. -/
inductive Dialect where
  /-- A batch file for `cmd.exe`. -/
  | windows
  /-- A shell script. -/
  | posix
deriving DecidableEq

/-- A word that names no dialect. -/
structure UnknownDialect where
  value : Text
deriving DecidableEq

def UnknownDialect.message (e : UnknownDialect) : Text :=
  "unknown script dialect '".toList ++ e.value ++ "' (expected: windows, posix)".toList

namespace Dialect

def name : Dialect → Text
  | .windows => "windows".toList
  | .posix => "posix".toList

/-- The words that name a dialect, in lower case. -/
def aliases : Dialect → List Text
  | .windows => ["windows".toList, "bat".toList, "cmd".toList]
  | .posix => ["posix".toList, "bash".toList, "sh".toList]

/-- The dialect that a word names; the case of ASCII letters does not matter. -/
def parse (w : Text) : Except UnknownDialect Dialect :=
  let lower := w.map Char.toLower
  if aliases .windows |>.contains lower then .ok .windows
  else if aliases .posix |>.contains lower then .ok .posix
  else .error ⟨w⟩

theorem parse_name (d : Dialect) : parse d.name = .ok d := by
  cases d <;> rfl

/-! ## Paths -/

/-- The character that this dialect puts between the parts of a path. -/
def separator : Dialect → Char
  | .windows => '\\'
  | .posix => '/'

/-- The characters that this dialect takes as separators. -/
def isSeparator : Dialect → Char → Bool
  | .windows, c => c == '\\' || c == '/'
  | .posix, c => c == '/'

/-- `child` below `base`, with one separator between them. Separators at the start of `child` never make it
absolute, and an empty `base` is the current folder. -/
def join (d : Dialect) (base child : Text) : Text :=
  let rest := child.dropWhile d.isSeparator
  if base.isEmpty then rest else base.dropTrailing d.isSeparator ++ d.separator :: rest

/-! ## Quoting -/

/-- The characters that keep their meaning inside the double quotes of a shell. -/
def isSpecial (c : Char) : Bool := c == '\\' || c == '"' || c == '$' || c == '`'

/-- A character as it is written inside double quotes. -/
def escapeChar : Dialect → Char → Text
  | .windows, c => if c == '%' then ['%', '%'] else [c]
  | .posix, c => if isSpecial c then ['\\', c] else [c]

/-- Text as it is written inside double quotes. -/
def escape (d : Dialect) (t : Text) : Text := t.flatMap d.escapeChar

@[simp] theorem escape_nil (d : Dialect) : d.escape [] = [] := rfl

@[simp] theorem escape_cons (d : Dialect) (c : Char) (t : Text) :
    d.escape (c :: t) = d.escapeChar c ++ d.escape t := by
  simp [escape]

@[simp] theorem escape_append (d : Dialect) (s t : Text) : d.escape (s ++ t) = d.escape s ++ d.escape t := by
  simp [escape]

end Dialect

end Watermark
