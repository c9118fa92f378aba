import Watermark.Text

/-!
# Options chosen by a word

Three settings are a choice from a short list: how the audio follows a changed speed, the shape of the frame and
its height. Each member has one word (`Choice.word`). Reading is strict where a word comes from a person
(`Choice.parse`), with an error that lists the words, and lenient where it comes from a file (`Choice.ofWord`):
an unknown word there means the source as it is, so that an old or edited file can still be used.

`parse_word` and `ofWord_word` say that every word reads back as its member.
-/

namespace Watermark

/-- A short list of members with a word for each. -/
class Choice (α : Type) where
  /-- What is chosen, as messages call it. -/
  subject : Text
  /-- The members in the order in which messages list them. -/
  all : List α
  word : α → Text
  /-- The member that an unknown word stands for in a file: the source as it is. -/
  asSource : α
  mem_all : ∀ a, a ∈ all
  word_injective : ∀ a b, word a = word b → a = b

/-- A word that names no member of the list. -/
structure UnknownWord where
  subject : Text
  value : Text
  /-- The words that were possible. -/
  expected : Text
deriving DecidableEq

def UnknownWord.message (e : UnknownWord) : Text :=
  "unknown ".toList ++ e.subject ++ " '".toList ++ e.value ++ "' (expected one of: ".toList ++ e.expected
    ++ ")".toList

namespace Choice

variable {α : Type} [Choice α]

def find? (w : Text) : Option α := all.find? fun a => word a == w

variable (α) in
/-- The words of all members, as a message lists them. -/
def words : Text := List.intercalate ", ".toList ((all : List α).map word)

/-- The member that a word names. -/
def parse (w : Text) : Except UnknownWord α :=
  match find? w with
  | some a => .ok a
  | none => .error ⟨subject α, w, words α⟩

/-- The member that a word names, or the source as it is. -/
def ofWord (w : Text) : α := (find? w).getD asSource

theorem find?_word (a : α) : find? (word a) = some a := by
  unfold find?
  cases h : (all : List α).find? fun b => word b == word a with
  | none =>
    have := List.find?_eq_none.1 h a (mem_all a)
    simp at this
  | some b =>
    have := List.find?_some h
    rw [word_injective b a (by simpa using this)]

theorem parse_word (a : α) : parse (word a) = .ok a := by
  simp [parse, find?_word]

theorem ofWord_word (a : α) : ofWord (word a) = a := by
  simp [ofWord, find?_word]

end Choice

/-! ## The three choices -/

/-- How audio is treated when the video speed changes. -/
inductive Audio where
  /-- The source audio stays as it is. -/
  | asSource
  /-- The audio is retimed with the picture. -/
  | sync
deriving DecidableEq

/-- The shape of the centered crop. -/
inductive Aspect where
  | asSource
  | widescreen
  | portrait
  | square
  | classic
deriving DecidableEq

/-- The height of the output frame. -/
inductive Resolution where
  | asSource
  | p1080
  | p720
  | p480
deriving DecidableEq

instance : Choice Audio where
  subject := "audio mode".toList
  all := [.asSource, .sync]
  word
    | .asSource => "original".toList
    | .sync => "sync".toList
  asSource := .asSource
  mem_all a := by cases a <;> decide
  word_injective a b := by cases a <;> cases b <;> decide

instance : Choice Aspect where
  subject := "aspect ratio".toList
  all := [.asSource, .widescreen, .portrait, .square, .classic]
  word
    | .asSource => "original".toList
    | .widescreen => "16:9".toList
    | .portrait => "9:16".toList
    | .square => "1:1".toList
    | .classic => "4:3".toList
  asSource := .asSource
  mem_all a := by cases a <;> decide
  word_injective a b := by cases a <;> cases b <;> decide

instance : Choice Resolution where
  subject := "output resolution".toList
  all := [.asSource, .p1080, .p720, .p480]
  word
    | .asSource => "original".toList
    | .p1080 => "1080p".toList
    | .p720 => "720p".toList
    | .p480 => "480p".toList
  asSource := .asSource
  mem_all a := by cases a <;> decide
  word_injective a b := by cases a <;> cases b <;> decide

/-- A frame shape: so many parts wide to so many parts high. -/
structure Ratio where
  width : Nat
  height : Nat
deriving DecidableEq

/-- The quotient as an arithmetic expression. -/
def Ratio.expression (r : Ratio) : Text :=
  if r.height = 1 then Text.ofNat r.width else Text.ofNat r.width ++ '/' :: Text.ofNat r.height

/-- The shape to crop to, none for the frame of the source. -/
def Aspect.ratio? : Aspect → Option Ratio
  | .asSource => none
  | .widescreen => some ⟨16, 9⟩
  | .portrait => some ⟨9, 16⟩
  | .square => some ⟨1, 1⟩
  | .classic => some ⟨4, 3⟩

/-- The height in pixels to scale to, none for the size of the source. -/
def Resolution.height? : Resolution → Option Nat
  | .asSource => none
  | .p1080 => some 1080
  | .p720 => some 720
  | .p480 => some 480

end Watermark
