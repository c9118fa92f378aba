import Watermark.Json.Value
import Watermark.Proofs.Json.Number

/-!
# The grammar of JSON

`Derives` is the grammar of JSON texts, with blanks wherever they may stand and values nested to any depth. A symbol
keeps what is to be read in its text: of a value its `Content`, of the members of an object their keys and contents
in order.

Strings are made of pieces (`Quoted.Pieces`), a character or a code unit each. Pieces make a text unless a code unit is
half of a pair without the other half (`Quoted.decode?`). A number is a `Token` in any of its spellings
(`Token.Spells`).

* `Derives.exists_cons`: the first character of a value tells what kind of value it is.
-/

namespace Watermark.Json

/-! ## Strings -/

namespace Quoted

/-- What a part of a string stands for. -/
inductive Piece where
  | char (c : Char)
  /-- A code unit of UTF-16. -/
  | unit (u : Nat)
deriving DecidableEq

/-- The pieces of what stands between two quotes. -/
inductive Pieces : Text → List Piece → Prop where
  | nil : Pieces [] []
  | self {c : Char} {t : Text} {ps : List Piece} :
    c ≠ '"' → c ≠ '\\' → 0x20 ≤ c.toNat → Pieces t ps → Pieces (c :: t) (.char c :: ps)
  | letter {c d : Char} {t : Text} {ps : List Piece} :
    simpleEscape? c = some d → Pieces t ps → Pieces ('\\' :: c :: t) (.char d :: ps)
  | unit {a b c d : Char} {u : Nat} {t : Text} {ps : List Piece} :
    codeUnit [a, b, c, d] = .ok u → Pieces t ps → Pieces ('\\' :: 'u' :: a :: b :: c :: d :: t) (.unit u :: ps)

/-- The second half of a pair, where the pieces begin with one. -/
def trailing? : List Piece → Option Nat
  | .unit v :: _ => if isTrailing v then some v else none
  | _ => none

/-- The text of pieces, none where half of a pair stands alone. -/
def decode? : List Piece → Option Text
  | [] => some []
  | .char c :: ps => (decode? ps).map (c :: ·)
  | .unit u :: ps =>
    if isTrailing u then none
    else if isLeading u then (trailing? ps).bind fun v => (decode? ps.tail).map (ofPair u v :: ·)
    else (decode? ps).map (Char.ofNat u :: ·)
termination_by ps => ps.length

/-- A character that stands for itself. -/
def isPlain (c : Char) : Bool := c != '"' && c != '\\' && 0x20 ≤ c.toNat

theorem pieces_of_plain {t : Text} (h : t.All isPlain) : Pieces t (t.map .char) := by
  induction t with
  | nil => exact .nil
  | cons c t ih =>
    have hc := h c List.mem_cons_self
    simp only [isPlain, Bool.and_eq_true, bne_iff_ne, decide_eq_true_eq] at hc
    exact .self hc.1.1 hc.1.2 hc.2 (ih fun d hd => h d (List.mem_cons_of_mem _ hd))

theorem decode?_map_char (t : Text) : decode? (t.map .char) = some t := by
  induction t with
  | nil => rw [List.map_nil, decode?]
  | cons c t ih => rw [List.map_cons, decode?, ih, Option.map_some]

end Quoted

/-! ## Values -/

/-- What a value is. A number is kept as it was written, a string as its text, which is none where half of a pair of
code units stands alone. -/
inductive Content where
  | null
  | bool (b : Bool)
  | number (t : Token)
  | string (t : Option Text)
  | array (items : List Content)
  | object (members : List (Option Text × Content))

/-- The members of an object, a key with half of a pair of code units being none. -/
abbrev Members := List (Option Text × Content)

inductive Symbol where
  | value (c : Content)
  /-- One element or more. -/
  | elements (cs : List Content)
  | member (key : Option Text) (c : Content)
  /-- One member or more. -/
  | members (ms : Members)

/-- The texts of a symbol. They begin with no blank; what comes behind a value takes the blanks in front of it. -/
inductive Derives : Symbol → Text → Prop where
  | null : Derives (.value .null) "null".toList
  | bool (b : Bool) : Derives (.value (.bool b)) (Value.boolText b)
  | number {t : Token} {w : Text} : t.Spells w → Derives (.value (.number t)) w
  | string {w : Text} {ps : List Quoted.Piece} :
    Quoted.Pieces w ps → Derives (.value (.string (Quoted.decode? ps))) ('"' :: (w ++ ['"']))
  | emptyArray {gap : Text} : gap.All isBlank → Derives (.value (.array [])) ('[' :: (gap ++ [']']))
  | array {gap w : Text} {cs : List Content} :
    gap.All isBlank → Derives (.elements cs) w → Derives (.value (.array cs)) ('[' :: (gap ++ (w ++ [']'])))
  | emptyObject {gap : Text} : gap.All isBlank → Derives (.value (.object [])) ('\x7b' :: (gap ++ ['\x7d']))
  | object {gap w : Text} {ms : Members} :
    gap.All isBlank → Derives (.members ms) w → Derives (.value (.object ms)) ('\x7b' :: (gap ++ (w ++ ['\x7d'])))
  | lastElement {c : Content} {w gap : Text} :
    Derives (.value c) w → gap.All isBlank → Derives (.elements [c]) (w ++ gap)
  | moreElements {c : Content} {cs : List Content} {w gap gap' v : Text} : Derives (.value c) w → gap.All isBlank →
    gap'.All isBlank → Derives (.elements cs) v → Derives (.elements (c :: cs)) (w ++ (gap ++ ',' :: (gap' ++ v)))
  | member {k : Text} {ps : List Quoted.Piece} {gap gap' w last : Text} {c : Content} :
    Quoted.Pieces k ps → gap.All isBlank → gap'.All isBlank → Derives (.value c) w → last.All isBlank →
    Derives (.member (Quoted.decode? ps) c) ('"' :: (k ++ '"' :: (gap ++ ':' :: (gap' ++ (w ++ last)))))
  | lastMember {k : Option Text} {c : Content} {w : Text} :
    Derives (.member k c) w → Derives (.members [(k, c)]) w
  | moreMembers {k : Option Text} {c : Content} {ms : Members} {w gap v : Text} :
    Derives (.member k c) w → gap.All isBlank → Derives (.members ms) v →
    Derives (.members ((k, c) :: ms)) (w ++ ',' :: (gap ++ v))

/-- The texts that hold an object with the members given, and nothing else but blanks. -/
inductive ObjectText : Members → Text → Prop where
  | empty {gap gap' last : Text} : gap.All isBlank → gap'.All isBlank → last.All isBlank →
    ObjectText [] (gap ++ '\x7b' :: (gap' ++ '\x7d' :: last))
  | members {ms : Members} {gap gap' w last : Text} : gap.All isBlank → gap'.All isBlank → Derives (.members ms) w →
    last.All isBlank → ObjectText ms (gap ++ '\x7b' :: (gap' ++ (w ++ '\x7d' :: last)))

/-- A string without escapes. -/
theorem Derives.plain {t : Text} (h : t.All Quoted.isPlain) :
    Derives (.value (.string (some t))) ('"' :: (t ++ ['"'])) :=
  Quoted.decode?_map_char t ▸ .string (Quoted.pieces_of_plain h)

/-- A member with a key without escapes. -/
theorem Derives.plainMember {k gap gap' w last : Text} {c : Content} (h : k.All Quoted.isPlain) (hgap : gap.All isBlank)
    (hgap' : gap'.All isBlank) (hw : Derives (.value c) w) (hlast : last.All isBlank) :
    Derives (.member (some k) c) ('"' :: (k ++ '"' :: (gap ++ ':' :: (gap' ++ (w ++ last))))) :=
  Quoted.decode?_map_char k ▸ .member (Quoted.pieces_of_plain h) hgap hgap' hw hlast

/-! ## First characters -/

/-- The characters that a value begins with. -/
def Content.begins : Content → Char → Bool
  | null, d => d == 'n'
  | bool b, d => d == if b then 't' else 'f'
  | number _, d => d == '-' || d.isDigit
  | string _, d => d == '"'
  | array _, d => d == '['
  | object _, d => d == '\x7b'

theorem Content.not_isBlank_of_begins {c : Content} {d : Char} (h : c.begins d = true) : isBlank d = false := by
  cases c with
  | number t => exact Token.not_isBlank_of_begins h
  | bool b => cases b <;> (rw [eq_of_beq h]; decide)
  | null => rw [eq_of_beq h]; decide
  | string t => rw [eq_of_beq h]; decide
  | array items => rw [eq_of_beq h]; decide
  | object members => rw [eq_of_beq h]; decide

/-- No value begins like the end of an array. -/
theorem Content.begins_bracket (c : Content) : c.begins ']' = false := by
  cases c with
  | bool b => cases b <;> decide
  | null => decide
  | number t => exact (by decide : (']' == '-' || Char.isDigit ']') = false)
  | string t => exact (by decide : (']' == '"') = false)
  | array items => exact (by decide : (']' == '[') = false)
  | object members => exact (by decide : (']' == '\x7b') = false)

theorem Content.ne_bracket_of_begins {c : Content} {d : Char} (h : c.begins d = true) : d ≠ ']' := by
  rintro rfl
  cases h.symm.trans c.begins_bracket

theorem Derives.exists_cons {c : Content} {w : Text} (h : Derives (.value c) w) :
    ∃ d u, w = d :: u ∧ c.begins d = true := by
  cases h with
  | null => exact ⟨_, _, rfl, rfl⟩
  | bool b => cases b <;> exact ⟨_, _, rfl, rfl⟩
  | number ht => exact ht.exists_cons
  | string _ => exact ⟨_, _, rfl, rfl⟩
  | emptyArray _ => exact ⟨_, _, rfl, rfl⟩
  | array _ _ => exact ⟨_, _, rfl, rfl⟩
  | emptyObject _ => exact ⟨_, _, rfl, rfl⟩
  | object _ _ => exact ⟨_, _, rfl, rfl⟩

theorem Derives.exists_cons_of_elements {cs : List Content} {w : Text} (h : Derives (.elements cs) w) :
    ∃ d u, w = d :: u ∧ isBlank d = false ∧ d ≠ ']' := by
  have hvalue : ∀ {c : Content} {v : Text}, Derives (.value c) v → ∀ t,
      ∃ d u, v ++ t = d :: u ∧ isBlank d = false ∧ d ≠ ']' := by
    intro c v hv t
    obtain ⟨d, u, rfl, hd⟩ := hv.exists_cons
    exact ⟨d, u ++ t, rfl, Content.not_isBlank_of_begins hd, Content.ne_bracket_of_begins hd⟩
  cases h with
  | lastElement hv _ => exact hvalue hv _
  | moreElements hv _ _ _ => exact hvalue hv _

theorem Derives.exists_cons_of_members {ms : Members} {w : Text} (h : Derives (.members ms) w) :
    ∃ u, w = '"' :: u := by
  cases h with
  | lastMember hm =>
    cases hm with
    | member _ _ _ _ _ => exact ⟨_, rfl⟩
  | moreMembers hm _ _ =>
    cases hm with
    | member _ _ _ _ _ => exact ⟨_, rfl⟩

end Watermark.Json
