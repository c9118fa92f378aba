import Watermark.Proofs.Text
import Watermark.Script.Dialect

/-!
# How a shell reads a line

A shell reads a line character by character (`Shell.step`): blanks separate words, double quotes keep what is in
them together, a backslash in quotes protects the special characters, and a dollar sign in quotes is replaced by the
value of the variable behind it. Every character of a word remembers whether it was quoted, since a glob means
something only outside quotes (`Shell.Word.globs`). What else a shell would act upon, such as a command
substitution or an unquoted variable, is refused, so that a line that is read holds nothing of the kind.

* `run_literal`: escaped text in quotes is read as it was before;
* `run_reference`: a variable in quotes is read as its value;
* `Spells.quoted`, `Spells.bare`: texts that are one word;
* `read_words`: words with a blank before each are read one by one.
-/

namespace Watermark.Shell

/-! ## Words -/

/-- A character of a word, and whether it was quoted. -/
structure Mark where
  char : Char
  quoted : Bool
deriving DecidableEq

abbrev Word := List Mark

/-- A text outside quotes. -/
def bare (t : Text) : Word := t.map (⟨·, false⟩)

/-- A text that stands for itself. -/
def literal (t : Text) : Word := t.map (⟨·, true⟩)

@[simp] theorem bare_append (s t : Text) : bare (s ++ t) = bare s ++ bare t := List.map_append

@[simp] theorem literal_append (s t : Text) : literal (s ++ t) = literal s ++ literal t := List.map_append

/-- The characters that match file names outside quotes. -/
def isGlob (c : Char) : Bool := c == '*' || c == '?' || c == '['

namespace Word

/-- The word as a program sees it, as long as it holds no glob. -/
def text (w : Word) : Text := w.map Mark.char

def globs (w : Word) : Text := text (w.filter fun m => !m.quoted && isGlob m.char)

@[simp] theorem text_bare (t : Text) : text (bare t) = t := by simp [text, bare, Function.comp_def]

@[simp] theorem text_literal (t : Text) : text (literal t) = t := by simp [text, literal, Function.comp_def]

@[simp] theorem globs_append (v w : Word) : globs (v ++ w) = globs v ++ globs w := by simp [globs, text]

@[simp] theorem globs_literal (t : Text) : globs (literal t) = [] := by simp [globs, text, literal]

theorem globs_bare (t : Text) : globs (bare t) = t.filter isGlob := by
  simp [globs, text, bare, List.filter_map, Function.comp_def]

end Word

/-- What a line is made of. -/
inductive Token where
  | word (w : Word)
  /-- A semicolon outside quotes. -/
  | separator
deriving DecidableEq

/-! ## Reading -/

/-- Where the reader is. -/
inductive Mode where
  /-- Outside quotes. -/
  | bare
  | quoted
  /-- In quotes behind a backslash. -/
  | escaped
  /-- In quotes behind a dollar sign and a part of a name. -/
  | reference (name : Text)
deriving DecidableEq

structure State where
  tokens : List Token
  /-- The word at hand, none between words. -/
  word : Option Word
  mode : Mode
deriving DecidableEq

namespace State

def start : State := ⟨[], none, .bare⟩

/-- The tokens with the word at hand. -/
def all (s : State) : List Token := s.tokens ++ (s.word.map Token.word).toList

/-- The state with more marks on the word at hand. -/
def put (s : State) (w : Word) (m : Mode) : State := ⟨s.tokens, some (s.word.getD [] ++ w), m⟩

end State

/-- What a shell acts upon outside quotes, besides blanks, semicolons and double quotes. -/
def activeChars : Text := "|&<>()$`\\'\n#~=\x7b\x7d!^%".toList

def isActive (c : Char) : Bool := activeChars.contains c

def isNameStart (c : Char) : Bool := c.isAlpha || c == '_'

def isNameChar (c : Char) : Bool := c.isAlphanum || c == '_'

/-- One character in quotes. -/
def stepQuoted (s : State) (c : Char) : Option State :=
  if c == '"' then some (s.put [] .bare)
  else if c == '\\' then some (s.put [] .escaped)
  else if c == '$' then some (s.put [] (.reference []))
  else if c == '`' then none
  else some (s.put [⟨c, true⟩] .quoted)

/-- One character, where `env` gives the value of each variable. -/
def step (env : Text → Text) (s : State) (c : Char) : Option State :=
  match s.mode with
  | .bare =>
    if c == ' ' || c == '\t' then some ⟨s.all, none, .bare⟩
    else if c == ';' then some ⟨s.all ++ [.separator], none, .bare⟩
    else if c == '"' then some (s.put [] .quoted)
    else if isActive c then none
    else some (s.put [⟨c, false⟩] .bare)
  | .quoted => stepQuoted s c
  | .escaped =>
    if c == '\n' then some (s.put [] .quoted)
    else if Dialect.isSpecial c then some (s.put [⟨c, true⟩] .quoted)
    else some (s.put [⟨'\\', true⟩, ⟨c, true⟩] .quoted)
  | .reference name =>
    if name.isEmpty then
      if isNameStart c then some (s.put [] (.reference [c])) else none
    else if isNameChar c then some (s.put [] (.reference (name ++ [c])))
    else stepQuoted (s.put (literal (env name)) .quoted) c

def run (env : Text → Text) (s : State) (t : Text) : Option State := t.foldlM (step env) s

/-- The tokens of a state outside quotes. -/
def State.finish (s : State) : Option (List Token) := if s.mode = .bare then some s.all else none

/-- The tokens of a line. -/
def read (env : Text → Text) (t : Text) : Option (List Token) := (run env .start t).bind State.finish

/-! ## Parts of a line -/

section

variable (env : Text → Text) (s : State) (ts : List Token) (w : Word)

@[simp] theorem run_nil : run env s [] = some s := rfl

@[simp] theorem run_cons (c : Char) (t : Text) :
    run env s (c :: t) = (step env s c).bind fun s' => run env s' t := rfl

theorem run_append (a b : Text) : run env s (a ++ b) = (run env s a).bind fun s' => run env s' b :=
  List.foldlM_append

/-- An escaped character in quotes is read as the character. -/
theorem run_escapeChar (c : Char) :
    run env ⟨ts, some w, .quoted⟩ (Dialect.posix.escapeChar c)
      = some ⟨ts, some (w ++ literal [c]), .quoted⟩ := by
  by_cases h : Dialect.isSpecial c = true
  · have hn : c ≠ '\n' := by
      rintro rfl
      exact absurd h (by decide)
    simp [Dialect.escapeChar, h, hn, step, stepQuoted, State.put, literal]
  · simp only [Dialect.isSpecial, Bool.or_eq_true, beq_iff_eq, not_or] at h
    obtain ⟨⟨⟨hb, hq⟩, hd⟩, hg⟩ := h
    simp [Dialect.escapeChar, Dialect.isSpecial, hb, hq, hd, hg, step, stepQuoted, State.put, literal]

/-- Escaped text in quotes is read as the text. -/
theorem run_literal (t : Text) :
    run env ⟨ts, some w, .quoted⟩ (Dialect.posix.escape t)
      = some ⟨ts, some (w ++ literal t), .quoted⟩ := by
  induction t generalizing w with
  | nil => simp [literal]
  | cons c t ih =>
    rw [Dialect.escape_cons, run_append, run_escapeChar, Option.bind_some, ih, List.append_assoc,
      ← literal_append]
    rfl

end

/-- A name of a variable. -/
def isName : Text → Bool
  | [] => false
  | c :: t => isNameStart c && t.all isNameChar

theorem run_nameChars {env : Text → Text} {ts : List Token} {w : Word} {n t : Text} (hn : n ≠ [])
    (ht : t.all isNameChar = true) :
    run env ⟨ts, some w, .reference n⟩ t = some ⟨ts, some w, .reference (n ++ t)⟩ := by
  induction t generalizing n with
  | nil => simp
  | cons c t ih =>
    rw [List.all_cons, Bool.and_eq_true] at ht
    have hstep : step env ⟨ts, some w, .reference n⟩ c = some ⟨ts, some w, .reference (n ++ [c])⟩ := by
      simp [step, State.put, hn, ht.1]
    rw [run_cons, hstep, Option.bind_some, ih (by simp) ht.2, List.append_assoc]
    rfl

/-- A variable in quotes is read as its value once a character follows that is in no name. -/
theorem run_reference {env : Text → Text} {ts : List Token} {w : Word} {n : Text} {c : Char} {t : Text}
    (hn : isName n = true) (hc : isNameChar c = false) :
    run env ⟨ts, some w, .quoted⟩ ('$' :: (n ++ c :: t))
      = run env ⟨ts, some (w ++ literal (env n)), .quoted⟩ (c :: t) := by
  obtain _ | ⟨a, n⟩ := n
  · cases hn
  rw [isName, Bool.and_eq_true] at hn
  have hdollar : step env ⟨ts, some w, .quoted⟩ '$' = some ⟨ts, some w, .reference []⟩ := by
    simp [step, stepQuoted, State.put]
  have hfirst : step env ⟨ts, some w, .reference []⟩ a = some ⟨ts, some w, .reference [a]⟩ := by
    simp [step, State.put, hn.1]
  have hlast : step env ⟨ts, some w, .reference (a :: n)⟩ c
      = step env ⟨ts, some (w ++ literal (env (a :: n))), .quoted⟩ c := by
    simp [step, State.put, hc]
  rw [run_cons, hdollar, Option.bind_some, List.cons_append, run_cons, hfirst, Option.bind_some, run_append,
    run_nameChars (by simp) hn.2, Option.bind_some, List.singleton_append, run_cons, hlast, run_cons]

/-! ## Texts in quotes -/

/-- Behind an open quote, the text and a closing quote add `v` to the word. -/
def Closes (env : Text → Text) (t : Text) (v : Word) : Prop :=
  ∀ ts w, run env ⟨ts, some w, .quoted⟩ (t ++ ['"']) = some ⟨ts, some (w ++ v), .bare⟩

namespace Closes

variable {env : Text → Text}

theorem nil : Closes env [] [] := fun ts w => by
  simp [step, stepQuoted, State.put]

theorem escape_append (t : Text) {u : Text} {v : Word} (h : Closes env u v) :
    Closes env (Dialect.posix.escape t ++ u) (literal t ++ v) := fun ts w => by
  rw [List.append_assoc, run_append, run_literal, Option.bind_some, h, List.append_assoc]

theorem escape (t : Text) : Closes env (Dialect.posix.escape t) (literal t) := by
  have hnil : Closes env [] [] := nil
  have h := escape_append t hnil
  rwa [List.append_nil, List.append_nil] at h

theorem reference {n : Text} (hn : isName n = true) : Closes env ('$' :: n) (literal (env n)) := fun ts w => by
  rw [List.cons_append, run_reference hn (by decide), ← List.nil_append ['"'], nil, List.append_nil]

theorem reference_append {n u : Text} {c : Char} {v : Word} (hn : isName n = true)
    (hc : isNameChar c = false) (h : Closes env (c :: u) v) :
    Closes env ('$' :: (n ++ c :: u)) (literal (env n) ++ v) := fun ts w => by
  rw [List.cons_append, List.append_assoc, List.cons_append, run_reference hn hc, ← List.cons_append, h,
    List.append_assoc]

end Closes

/-! ## Texts that are one word -/

/-- Where no word is begun, the text is read as the word. -/
def Spells (env : Text → Text) (t : Text) (w : Word) : Prop :=
  ∀ ts, run env ⟨ts, none, .bare⟩ t = some ⟨ts, some w, .bare⟩

/-- The characters that are read as themselves outside quotes. -/
def isOrdinary (c : Char) : Bool := !(c == ' ' || c == '\t' || c == ';' || c == '"' || isActive c)

namespace Spells

variable {env : Text → Text}

theorem step_ordinary {s : State} {c : Char} (hs : s.mode = .bare) (hc : isOrdinary c = true) :
    step env s c = some (s.put (bare [c]) .bare) := by
  simp only [isOrdinary, Bool.not_eq_true', Bool.or_eq_false_iff] at hc
  obtain ⟨⟨⟨⟨hb, ht⟩, hsemi⟩, hq⟩, ha⟩ := hc
  rw [step, hs]
  simp [hb, ht, hsemi, hq, ha, bare]

theorem run_bare {ts : List Token} {w : Word} {t : Text} (ht : t.All isOrdinary) :
    run env ⟨ts, some w, .bare⟩ t = some ⟨ts, some (w ++ bare t), .bare⟩ := by
  induction t generalizing w with
  | nil => simp [bare]
  | cons c t ih =>
    rw [run_cons, step_ordinary rfl (ht c List.mem_cons_self), Option.bind_some, State.put,
      ih fun c hc => ht c (List.mem_cons_of_mem _ hc), Option.getD_some, List.append_assoc, ← bare_append]
    rfl

theorem bare {t : Text} (hne : t ≠ []) (ht : t.All isOrdinary) : Spells env t (bare t) := by
  intro ts
  obtain ⟨c, t, rfl⟩ := List.exists_cons_of_ne_nil hne
  rw [run_cons, step_ordinary rfl (ht c List.mem_cons_self), Option.bind_some, State.put,
    run_bare fun c hc => ht c (List.mem_cons_of_mem _ hc)]
  rfl

theorem quoted {t : Text} {v : Word} (h : Closes env t v) : Spells env ('"' :: (t ++ ['"'])) v := by
  intro ts
  have hopen : step env ⟨ts, none, .bare⟩ '"' = some ⟨ts, some [], .quoted⟩ := by
    simp [step, State.put]
  rw [run_cons, hopen, Option.bind_some, h, List.nil_append]

theorem append_bare {t u : Text} {w : Word} (h : Spells env t w) (hu : u.All isOrdinary) :
    Spells env (t ++ u) (w ++ Shell.bare u) := fun ts => by
  rw [run_append, h, Option.bind_some, run_bare hu]

end Spells

/-! ## Lines of words -/

/-- A blank ends the word at hand, and `w` is the next one. -/
def State.next (s : State) (w : Word) : State := ⟨s.all, some w, .bare⟩

theorem State.mode_foldl_next {s : State} (hs : s.mode = .bare) (ws : List Word) :
    (ws.foldl State.next s).mode = .bare := by
  induction ws generalizing s with
  | nil => exact hs
  | cons w ws ih => exact ih rfl

theorem State.all_foldl_next (s : State) (ws : List Word) :
    (ws.foldl State.next s).all = s.all ++ ws.map Token.word := by
  induction ws generalizing s with
  | nil => simp
  | cons w ws ih =>
    rw [List.foldl_cons, ih, List.map_cons, State.next, State.all]
    simp

section

variable {env : Text → Text} {ι : Type} {text : ι → Text} {word : ι → Word} {l : List ι} {s : State}

theorem step_blank (hs : s.mode = .bare) : step env s ' ' = some ⟨s.all, none, .bare⟩ := by
  rw [step, hs]
  simp

theorem run_words (hs : s.mode = .bare) (h : ∀ i ∈ l, Spells env (text i) (word i)) :
    run env s (l.flatMap fun i => ' ' :: text i) = some ((l.map word).foldl State.next s) := by
  induction l generalizing s with
  | nil => rfl
  | cons i l ih =>
    rw [List.flatMap_cons, List.cons_append, run_cons, step_blank hs, Option.bind_some, run_append,
      h i List.mem_cons_self, Option.bind_some, ih rfl fun j hj => h j (List.mem_cons_of_mem _ hj)]
    rfl

/-- Words with a blank before each are read one by one. -/
theorem read_words (h : ∀ i ∈ l, Spells env (text i) (word i)) :
    read env (l.flatMap fun i => ' ' :: text i) = some (l.map fun i => .word (word i)) := by
  rw [read, run_words rfl h, Option.bind_some, State.finish, if_pos (State.mode_foldl_next rfl _),
    State.all_foldl_next, List.map_map]
  rfl

/-- Two commands with a semicolon between them. -/
theorem read_words_separator {m : List ι} (hl : ∀ i ∈ l, Spells env (text i) (word i))
    (hm : ∀ i ∈ m, Spells env (text i) (word i)) :
    read env ((l.flatMap fun i => ' ' :: text i) ++ ';' :: m.flatMap fun i => ' ' :: text i)
      = some ((l.map fun i => .word (word i)) ++ .separator :: m.map fun i => .word (word i)) := by
  have hmode := State.mode_foldl_next (s := .start) rfl (l.map word)
  have hall := State.all_foldl_next .start (l.map word)
  rw [read, run_append, run_words rfl hl, Option.bind_some, run_cons]
  generalize (l.map word).foldl State.next .start = s at hmode hall
  have hsemicolon : step env s ';' = some ⟨s.all ++ [.separator], none, .bare⟩ := by
    rw [step, hmode]
    simp
  rw [hsemicolon, Option.bind_some, run_words rfl hm, Option.bind_some, State.finish,
    if_pos (State.mode_foldl_next rfl _), State.all_foldl_next, State.all, hall]
  simp [State.all, State.start, Function.comp_def]

/-- Blanks before a line make no difference. -/
theorem read_blank (t : Text) : read env (' ' :: t) = read env t := by
  rw [read, run_cons, step_blank rfl]
  rfl

end

end Watermark.Shell
