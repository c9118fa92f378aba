import Mathlib.Algebra.Order.Ring.Rat
import Watermark.Proofs.Text

/-!
# Arithmetic in an expression

The expressions of a filter may hold arithmetic: numbers, names, the four operations, parentheses and `min`. The
grammar (`Arithmetic.Denotes`) has a level for sums, one for products and one for what binds closest; a sum has its
last sign outermost, and so has a product, so that operations of one level go from left to right.

A text is read token by token (`Arithmetic.read?`). What stands open is kept on a list of brackets, and for each of
them the terms and the factors that wait for their right-hand side (`Arithmetic.Pending`).

* `tokens_word`, `tokens_symbol`: how a text falls into tokens;
* `Denotes.reached`: the tokens of a derivation lead past just its operand, by induction on the derivation;
* `read?_of_denotes`: what the grammar derives is read as what it denotes, so the grammar is unambiguous
  (`Denotes.unique`).
-/

namespace Watermark.Arithmetic

/-! ## Expressions and their values -/

inductive Operator where
  | add
  | sub
  | mul
  | div
deriving DecidableEq

inductive Expression where
  | number (n : Nat)
  | name (w : Text)
  | binary (op : Operator) (a b : Expression)
  | min (a b : Expression)
deriving DecidableEq

/-- The values of names. -/
abbrev Environment := List (Text × ℚ)

/-- Nothing is divided by zero. -/
def Operator.apply? : Operator → ℚ → ℚ → Option ℚ
  | add, x, y => some (x + y)
  | sub, x, y => some (x - y)
  | mul, x, y => some (x * y)
  | div, x, y => if y = 0 then none else some (x / y)

/-- The exact value, none where a name has no value or zero divides. -/
def Expression.value? (env : Environment) : Expression → Option ℚ
  | number n => some n
  | name w => env.lookup w
  | binary op a b => do op.apply? (← a.value? env) (← b.value? env)
  | min a b => do return Min.min (← a.value? env) (← b.value? env)

/-! ## Tokens -/

inductive Token where
  /-- Letters and digits. -/
  | word (w : Text)
  | symbol (c : Char)
deriving DecidableEq

/-- A character before tokens: a letter or digit goes to the word that begins there. -/
def attach (c : Char) : List Token → List Token
  | .word w :: ts => if c.isAlphanum then .word (c :: w) :: ts else .symbol c :: .word w :: ts
  | ts => if c.isAlphanum then .word [c] :: ts else .symbol c :: ts

/-- Words as long as possible, and every other character by itself. -/
def tokens (t : Text) : List Token := t.foldr attach []

theorem tokens_symbol {c : Char} (h : c.isAlphanum = false) (t : Text) : tokens (c :: t) = .symbol c :: tokens t := by
  show attach c (tokens t) = _
  cases tokens t with
  | nil => simp [attach, h]
  | cons u ts => cases u <;> simp [attach, h]

/-- A word ends where no letter or digit follows. -/
theorem tokens_word {w t : Text} (hne : w ≠ []) (hw : w.All Char.isAlphanum)
    (ht : ∀ c ∈ t.head?, c.isAlphanum = false) : tokens (w ++ t) = .word w :: tokens t := by
  induction w with
  | nil => exact absurd rfl hne
  | cons c w ih =>
    have hc := hw c List.mem_cons_self
    show attach c (tokens (w ++ t)) = _
    cases w with
    | nil =>
      cases t with
      | nil => simp [tokens, attach, hc]
      | cons d t => simp [tokens_symbol (ht d rfl), attach, hc]
    | cons d w =>
      rw [ih (List.cons_ne_nil d w) fun d hd => hw d (List.mem_cons_of_mem c hd)]
      simp [attach, hc]

/-- A word of digits is a number, any other one a name. -/
def Expression.ofWord (w : Text) : Expression :=
  if w.all Char.isDigit then .number (Nat.ofDigitChars 10 w 0) else .name w

theorem Expression.ofWord_ofNat (n : Nat) : ofWord (Text.ofNat n) = .number n := by
  have hdigits : (Text.ofNat n).all Char.isDigit = true := List.all_eq_true.2 fun _ => Text.isDigit_of_mem_ofNat
  rw [ofWord, hdigits, Text.ofDigitChars_ofNat]
  rfl

/-- The word of the function that takes the lesser of two. -/
def minWord : Text := "min".toList

/-! ## The grammar -/

/-- How close an expression binds. -/
inductive Level where
  | sum
  | product
  | atom

/-- What tokens denote at a level. -/
inductive Denotes : Level → List Token → Expression → Prop where
  | word (w : Text) : w ≠ minWord → Denotes .atom [.word w] (.ofWord w)
  | group {ts e} : Denotes .sum ts e → Denotes .atom (.symbol '(' :: (ts ++ [.symbol ')'])) e
  | min {ts us a b} : Denotes .sum ts a → Denotes .sum us b →
    Denotes .atom (.word minWord :: .symbol '(' :: (ts ++ .symbol ',' :: (us ++ [.symbol ')']))) (.min a b)
  | atom {ts e} : Denotes .atom ts e → Denotes .product ts e
  | mul {ts us a b} : Denotes .product ts a → Denotes .atom us b →
    Denotes .product (ts ++ .symbol '*' :: us) (.binary .mul a b)
  | div {ts us a b} : Denotes .product ts a → Denotes .atom us b →
    Denotes .product (ts ++ .symbol '/' :: us) (.binary .div a b)
  | product {ts e} : Denotes .product ts e → Denotes .sum ts e
  | add {ts us a b} : Denotes .sum ts a → Denotes .product us b →
    Denotes .sum (ts ++ .symbol '+' :: us) (.binary .add a b)
  | sub {ts us a b} : Denotes .sum ts a → Denotes .product us b →
    Denotes .sum (ts ++ .symbol '-' :: us) (.binary .sub a b)

/-! ## The reader -/

/-- An expression that waits for its right-hand side, if there is one. -/
def complete : Option (Expression × Operator) → Expression → Expression
  | some (a, op), e => .binary op a e
  | none, e => e

/-- What has been read inside of a bracket, before the operand at hand. -/
structure Pending where
  /-- The terms with the sign behind them. -/
  terms : Option (Expression × Operator)
  /-- The factors of the last term with the sign behind them. -/
  factors : Option (Expression × Operator)

namespace Pending

def empty : Pending := ⟨none, none⟩

/-- The term that ends with the operand. -/
def term (p : Pending) (e : Expression) : Expression := complete p.factors e

/-- All that stands in the bracket, up to the operand. -/
def sum (p : Pending) (e : Expression) : Expression := complete p.terms (p.term e)

end Pending

/-- What an open bracket is for. -/
inductive Bracket where
  | group
  /-- The first argument of `min`. -/
  | first
  /-- The second argument of `min`, behind the first one. -/
  | second (a : Expression)

/-- The open brackets with what stands before them, the innermost one first. -/
abbrev Outer := List (Bracket × Pending)

inductive State where
  /-- An operand comes next. -/
  | before (p : Pending) (outer : Outer)
  /-- The bracket of a function comes next. -/
  | called (p : Pending) (outer : Outer)
  /-- Behind an operand. -/
  | behind (e : Expression) (p : Pending) (outer : Outer)

namespace State

/-- What a symbol behind an operand does. -/
def onSymbol (e : Expression) (p : Pending) (outer : Outer) : Char → Option State
  | '*' => some (before { p with factors := some (p.term e, .mul) } outer)
  | '/' => some (before { p with factors := some (p.term e, .div) } outer)
  | '+' => some (before { terms := some (p.sum e, .add), factors := none } outer)
  | '-' => some (before { terms := some (p.sum e, .sub), factors := none } outer)
  | ',' =>
    match outer with
    | (.first, q) :: outer => some (before .empty ((.second (p.sum e), q) :: outer))
    | _ => none
  | ')' =>
    match outer with
    | (.group, q) :: outer => some (behind (p.sum e) q outer)
    | (.second a, q) :: outer => some (behind (.min a (p.sum e)) q outer)
    | _ => none
  | _ => none

def next : State → Token → Option State
  | before p outer, .word w => some (if w = minWord then called p outer else behind (.ofWord w) p outer)
  | before p outer, .symbol c => if c = '(' then some (before .empty ((.group, p) :: outer)) else none
  | called p outer, .symbol c => if c = '(' then some (before .empty ((.first, p) :: outer)) else none
  | behind e p outer, .symbol c => onSymbol e p outer c
  | _, _ => none

/-- The state behind tokens. -/
def run (s : State) (ts : List Token) : Option State := ts.foldlM next s

theorem run_cons (s : State) (t : Token) (ts : List Token) : s.run (t :: ts) = s.next t >>= fun s => s.run ts :=
  List.foldlM_cons

theorem run_append (s : State) (ts us : List Token) : s.run (ts ++ us) = s.run ts >>= fun s => s.run us :=
  List.foldlM_append

/-- The expression that ends here, if no bracket is open. -/
def result? : State → Option Expression
  | behind e p [] => some (p.sum e)
  | _ => none

end State

/-- The expression that a text holds. -/
def read? (t : Text) : Option Expression := (State.before .empty []).run (tokens t) >>= State.result?

/-- The value of the expression that a text holds. -/
def evaluate? (env : Environment) (t : Text) : Option ℚ := read? t >>= Expression.value? env

/-! ## Reading what the grammar derives -/

/-- What is behind tokens that denote an expression: it is the operand, or it will be complete with it. -/
def Reached (ts : List Token) (e : Expression) : Level → Prop
  | .atom => ∀ p outer, (State.before p outer).run ts = some (.behind e p outer)
  | .product => ∀ p outer, p.factors = none →
    ∃ x q, (State.before p outer).run ts = some (.behind x q outer) ∧ q.terms = p.terms ∧ q.term x = e
  | .sum => ∀ outer, ∃ x q, (State.before .empty outer).run ts = some (.behind x q outer) ∧ q.sum x = e

variable {ts us : List Token} {e a b : Expression}

theorem Reached.factor {op : Operator} {c : Char} (ha : Reached ts a .product) (hb : Reached us b .atom)
    (hc : ∀ x p outer, State.onSymbol x p outer c = some (.before { p with factors := some (p.term x, op) } outer)) :
    Reached (ts ++ .symbol c :: us) (.binary op a b) .product := by
  intro p outer hp
  obtain ⟨x, q, hx, hterms, hterm⟩ := ha p outer hp
  refine ⟨b, { q with factors := some (q.term x, op) }, ?_, hterms, ?_⟩
  · rw [State.run_append, hx, Option.bind_eq_bind, Option.bind_some, State.run_cons, State.next, hc]
    exact hb _ outer
  · rw [hterm]
    rfl

theorem Reached.term {op : Operator} {c : Char} (ha : Reached ts a .sum) (hb : Reached us b .product)
    (hc : ∀ x p outer, State.onSymbol x p outer c
      = some (.before { terms := some (p.sum x, op), factors := none } outer)) :
    Reached (ts ++ .symbol c :: us) (.binary op a b) .sum := by
  intro outer
  obtain ⟨x, q, hx, hsum⟩ := ha outer
  obtain ⟨y, r, hy, hterms, hterm⟩ := hb { terms := some (q.sum x, op), factors := none } outer rfl
  refine ⟨y, r, ?_, ?_⟩
  · rw [State.run_append, hx, Option.bind_eq_bind, Option.bind_some, State.run_cons, State.next, hc]
    exact hy
  · rw [Pending.sum, hterms, hterm, hsum]
    rfl

theorem Denotes.reached {l : Level} (h : Denotes l ts e) : Reached ts e l := by
  induction h with
  | word w hw =>
    intro p outer
    rw [State.run_cons, State.next, if_neg hw]
    rfl
  | group _ ih =>
    intro p outer
    obtain ⟨x, q, hx, hsum⟩ := ih ((.group, p) :: outer)
    rw [State.run_cons, State.next, if_pos rfl, Option.bind_eq_bind, Option.bind_some, State.run_append, hx, ← hsum]
    rfl
  | min _ _ iha ihb =>
    intro p outer
    obtain ⟨x, q, hx, rfl⟩ := iha ((.first, p) :: outer)
    obtain ⟨y, r, hy, rfl⟩ := ihb ((.second (q.sum x), p) :: outer)
    rw [State.run_cons, State.next, if_pos rfl, Option.bind_eq_bind, Option.bind_some, State.run_cons, State.next,
      if_pos rfl, Option.bind_eq_bind, Option.bind_some, State.run_append, hx, Option.bind_eq_bind, Option.bind_some,
      State.run_cons]
    show (State.before .empty ((.second (q.sum x), p) :: outer)).run _ = _
    rw [State.run_append, hy]
    rfl
  | atom _ ih =>
    intro p outer hp
    refine ⟨_, p, ih p outer, rfl, ?_⟩
    rw [Pending.term, hp]
    rfl
  | mul _ _ iha ihb => exact iha.factor ihb fun _ _ _ => rfl
  | div _ _ iha ihb => exact iha.factor ihb fun _ _ _ => rfl
  | product _ ih =>
    intro outer
    obtain ⟨x, q, hx, hterms, hterm⟩ := ih .empty outer rfl
    refine ⟨x, q, hx, ?_⟩
    rw [Pending.sum, hterms, hterm]
    rfl
  | add _ _ iha ihb => exact iha.term ihb fun _ _ _ => rfl
  | sub _ _ iha ihb => exact iha.term ihb fun _ _ _ => rfl

/-- What the grammar derives is read as what it denotes. -/
theorem read?_of_denotes {t : Text} (h : Denotes .sum (tokens t) e) : read? t = some e := by
  obtain ⟨x, q, hx, rfl⟩ := h.reached []
  rw [read?, hx]
  rfl

/-- The grammar is unambiguous. -/
theorem Denotes.unique {t : Text} (ha : Denotes .sum (tokens t) a) (hb : Denotes .sum (tokens t) b) : a = b :=
  Option.some.inj ((read?_of_denotes ha).symm.trans (read?_of_denotes hb))

theorem evaluate?_of_denotes {t : Text} (env : Environment) (h : Denotes .sum (tokens t) e) :
    evaluate? env t = e.value? env := by
  rw [evaluate?, read?_of_denotes h]
  rfl

/-- Operations of one level go from left to right, and products before sums. -/
example : evaluate? [] "2+12/3/2*(7-4-1)-min(3,5)".toList = some 3 := by decide +kernel

end Watermark.Arithmetic
