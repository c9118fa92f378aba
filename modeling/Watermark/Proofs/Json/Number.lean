import Mathlib.Logic.Basic
import Watermark.Json.Record
import Watermark.Number.Notation
import Watermark.Proofs.Json.Reader

/-!
# Numbers are read from their parts

`Token.WellFormed` says which parts of a number JSON allows, and `Token.Spells` which texts these parts have;
`Token.text` is the one that is written.

* `Token.run_scan`: each spelling of a number is scanned as its parts, if nothing behind it prolongs it;
* `reads_numeral`: so it is read as the value of these parts;
* `Token.value_eq`: what a number is worth, for whole numbers (`Token.IsInt`) that fit 64 bits and for all others;
* `Token.value_ofInt`: the value of a whole number that is written out.
-/

namespace Watermark.Json

namespace Token

/-! ## Parts and text -/

/-- The digits behind the point, and the point. -/
def fractionText : Option Text → Text
  | none => []
  | some ds => '.' :: ds

/-- The exponent with its sign. -/
def exponentText : Option (Bool × Text) → Text
  | none => []
  | some (negative, ds) => 'e' :: (if negative then '-' else '+') :: ds

/-- A number as its parts write it. -/
def text (t : Token) : Text :=
  Binary64.sign t.negative ++ (t.whole ++ (fractionText t.fraction ++ exponentText t.exponent))

/-- One digit at least, and nothing else. -/
def Digits (ds : Text) : Prop := ds ≠ [] ∧ ds.All Char.isDigit

/-- The parts of a number as JSON allows them. -/
structure WellFormed (t : Token) : Prop where
  whole : Digits t.whole
  /-- No needless zero in front. -/
  lone : t.whole.head? = some '0' → t.whole = ['0']
  fraction : ∀ ds ∈ t.fraction, Digits ds
  exponent : ∀ p ∈ t.exponent, Digits p.2

/-- The spellings of an exponent. The mark is a letter of either case, and a plus sign may be left out. -/
inductive ExponentSpells : Option (Bool × Text) → Text → Prop where
  | none : ExponentSpells none []
  | unsigned {mark : Char} {ds : Text} : mark ∈ ['e', 'E'] → ExponentSpells (some (false, ds)) (mark :: ds)
  | signed {mark : Char} {negative : Bool} {ds : Text} :
    mark ∈ ['e', 'E'] → ExponentSpells (some (negative, ds)) (mark :: (if negative then '-' else '+') :: ds)

/-- The spellings of a number. -/
inductive Spells (t : Token) : Text → Prop where
  | mk {x : Text} : t.WellFormed → ExponentSpells t.exponent x →
    Spells t (Binary64.sign t.negative ++ (t.whole ++ (fractionText t.fraction ++ x)))

theorem WellFormed.spells {t : Token} (h : t.WellFormed) : t.Spells t.text := by
  refine .mk h ?_
  cases t.exponent with
  | none => exact .none
  | some p => exact .signed (by decide)

/-! ## Scanning -/

theorem not_isDigit_of_ends {t : Text} (h : Ends t) : ∀ c ∈ t.head?, c.isDigit = false := by
  intro c hc
  have hc := h c hc
  simp only [prolongs, Bool.or_eq_false_iff] at hc
  exact hc.1.1.1

theorem run_oneOf?_cons {cs : Text} {c : Char} (h : c ∈ cs) (t : Text) :
    (oneOf? cs).run (c :: t) = .ok (some c, t) := by
  have hlook : look?.run (c :: t) = .ok (some c, c :: t) := rfl
  rw [oneOf?, run_bind_of_ok hlook]
  show (if cs.contains c = true then (do advance; return some c) else return none : Reader (Option Char)).run _ = _
  rw [if_pos (List.contains_iff_mem.2 h)]
  rfl

theorem run_oneOf?_none {cs t : Text} (h : ∀ c ∈ t.head?, c ∉ cs) : (oneOf? cs).run t = .ok (none, t) := by
  have hlook : look?.run t = .ok (t.head?, t) := rfl
  rw [oneOf?, run_bind_of_ok hlook]
  cases t with
  | nil => rfl
  | cons c t =>
    show (if cs.contains c = true then (do advance; return some c) else return none : Reader (Option Char)).run _ = _
    rw [if_neg (mt List.contains_iff_mem.1 (h c rfl))]
    rfl

/-- Digits are taken up to a text that does not begin with one. -/
theorem run_someDigits {ds t : Text} (h : Digits ds) (ht : ∀ c ∈ t.head?, c.isDigit = false) :
    someDigits.run (ds ++ t) = .ok (ds, t) := by
  obtain ⟨hne, hall⟩ := h
  obtain ⟨c, ds, rfl⟩ := List.exists_cons_of_ne_nil hne
  have hlook : look?.run (c :: ds ++ t) = .ok (some c, c :: ds ++ t) := rfl
  rw [someDigits, run_bind_of_ok hlook]
  show (if c.isDigit = true then digits else throw .malformed : Reader Text).run _ = _
  rw [if_pos (hall c List.mem_cons_self)]
  show Except.ok ((c :: ds ++ t).takeWhile Char.isDigit, (c :: ds ++ t).dropWhile Char.isDigit) = _
  rw [Text.takeWhile_append_of_stop hall ht, Text.dropWhile_append_of_stop hall ht]

theorem run_wholeDigits {ds t : Text} (h : Digits ds) (hlone : ds.head? = some '0' → ds = ['0'])
    (ht : ∀ c ∈ t.head?, c.isDigit = false) : wholeDigits.run (ds ++ t) = .ok (ds, t) := by
  rw [wholeDigits, run_bind_of_ok (run_someDigits h ht)]
  split
  · have := hlone rfl
    simp at this
  · rfl

/-- Takes a point and the digits behind it. -/
def scanFraction : Reader (Option Text) := do
  match ← oneOf? ['.'] with
  | some _ => some <$> someDigits
  | none => return none

/-- Takes an exponent. -/
def scanExponent : Reader (Option (Bool × Text)) := do
  match ← oneOf? ['e', 'E'] with
  | some _ => do
    let sign ← oneOf? ['+', '-']
    let ds ← someDigits
    return some (sign == some '-', ds)
  | none => return none

theorem scan_eq : scan = (do
    let minus ← oneOf? ['-']
    let whole ← wholeDigits
    let fraction ← scanFraction
    let exponent ← scanExponent
    return ⟨minus.isSome, whole, fraction, exponent⟩) := by
  simp only [scan, scanFraction, scanExponent, bind_assoc]
  refine bind_congr fun minus => bind_congr fun whole => bind_congr fun point => ?_
  cases point with
  | none =>
    simp only [pure_bind]
    refine bind_congr fun mark => ?_
    cases mark <;> simp only [bind_assoc, pure_bind]
  | some _ =>
    refine bind_congr fun fraction => bind_congr fun mark => ?_
    cases mark <;> simp only [bind_assoc, pure_bind]

theorem run_scanFraction {fraction : Option Text} (h : ∀ ds ∈ fraction, Digits ds) {rest : Text}
    (hrest : ∀ c ∈ rest.head?, c.isDigit = false ∧ c ≠ '.') :
    scanFraction.run (fractionText fraction ++ rest) = .ok (fraction, rest) := by
  cases fraction with
  | none =>
    have hnone : (oneOf? ['.']).run rest = .ok (none, rest) :=
      run_oneOf?_none fun c hc => by simpa using (hrest c hc).2
    exact (run_bind_of_ok hnone).trans rfl
  | some ds =>
    have hdigits := run_someDigits (h ds rfl) fun c hc => (hrest c hc).1
    refine (run_bind_of_ok (run_oneOf?_cons List.mem_cons_self _)).trans ?_
    show (some <$> someDigits).run (ds ++ rest) = _
    rw [StateT.run_map, hdigits]
    rfl

theorem run_scanExponent {exponent : Option (Bool × Text)} {x : Text} (hx : ExponentSpells exponent x)
    (h : ∀ p ∈ exponent, Digits p.2) {rest : Text} (hrest : Ends rest) :
    scanExponent.run (x ++ rest) = .ok (exponent, rest) := by
  cases hx with
  | none =>
    have hnone : (oneOf? ['e', 'E']).run rest = .ok (none, rest) := by
      refine run_oneOf?_none fun c hc hmem => ?_
      have hend := hrest c hc
      simp only [List.mem_cons, List.not_mem_nil, or_false] at hmem
      rcases hmem with rfl | rfl <;> exact absurd hend (by decide)
    exact (run_bind_of_ok hnone).trans rfl
  | @unsigned mark ds hmark =>
    have hdigits := run_someDigits (h _ rfl) (not_isDigit_of_ends hrest)
    have hsign : (oneOf? ['+', '-']).run (ds ++ rest) = .ok (none, ds ++ rest) := by
      obtain ⟨d, ds, rfl⟩ := List.exists_cons_of_ne_nil (h _ rfl).1
      have hd := (h _ rfl).2 d List.mem_cons_self
      refine run_oneOf?_none ?_
      rintro c ⟨rfl⟩ hmem
      simp only [List.mem_cons, List.not_mem_nil, or_false] at hmem
      rcases hmem with rfl | rfl <;> exact absurd hd (by decide)
    refine (run_bind_of_ok (run_oneOf?_cons hmark _)).trans ?_
    refine (run_bind_of_ok hsign).trans ?_
    exact (run_bind_of_ok hdigits).trans rfl
  | @signed mark negative ds hmark =>
    have hdigits := run_someDigits (h _ rfl) (not_isDigit_of_ends hrest)
    refine (run_bind_of_ok (run_oneOf?_cons hmark _)).trans ?_
    have hsign : (if negative then '-' else '+') ∈ ['+', '-'] := by cases negative <;> decide
    refine (run_bind_of_ok (run_oneOf?_cons hsign _)).trans ?_
    refine (run_bind_of_ok hdigits).trans ?_
    cases negative <;> rfl

/-- Behind the whole part stands no digit, behind the fraction no point either. -/
theorem head?_exponent {exponent : Option (Bool × Text)} {x : Text} (hx : ExponentSpells exponent x) {rest : Text}
    (hrest : Ends rest) : ∀ c ∈ (x ++ rest).head?, c.isDigit = false ∧ c ≠ '.' := by
  have hmark : ∀ c ∈ ['e', 'E'], c.isDigit = false ∧ c ≠ '.' := by simp
  cases hx with
  | none =>
    intro c hc
    refine ⟨not_isDigit_of_ends hrest c hc, ?_⟩
    rintro rfl
    exact absurd (hrest _ hc) (by decide)
  | unsigned hm =>
    rintro c ⟨rfl⟩
    exact hmark _ hm
  | signed hm =>
    rintro c ⟨rfl⟩
    exact hmark _ hm

theorem head?_fractionText (fraction : Option Text) {rest : Text} (hrest : ∀ c ∈ rest.head?, c.isDigit = false) :
    ∀ c ∈ (fractionText fraction ++ rest).head?, c.isDigit = false := by
  cases fraction with
  | none => exact hrest
  | some ds =>
    rintro c ⟨rfl⟩
    decide

theorem run_minus {negative : Bool} {rest : Text} (hrest : ∀ c ∈ rest.head?, c.isDigit = true) :
    (oneOf? ['-']).run (Binary64.sign negative ++ rest) = .ok (if negative then some '-' else none, rest) := by
  cases negative with
  | true => exact run_oneOf?_cons List.mem_cons_self _
  | false =>
    refine run_oneOf?_none fun c hc hmem => ?_
    have hdigit := hrest c hc
    simp only [List.mem_cons, List.not_mem_nil, or_false] at hmem
    subst hmem
    exact absurd hdigit (by decide)

/-- A number is scanned as the parts that it was written from. -/
theorem run_scan {t : Token} {w : Text} (h : t.Spells w) {rest : Text} (hrest : Ends rest) :
    scan.run (w ++ rest) = .ok (t, rest) := by
  cases h with
  | @mk x hwell hx =>
    have hexponent := run_scanExponent hx hwell.exponent hrest
    have hpoint := head?_exponent hx hrest
    have hfraction := run_scanFraction hwell.fraction hpoint
    have hdigit := head?_fractionText t.fraction fun c hc => (hpoint c hc).1
    have hwhole := run_wholeDigits hwell.whole hwell.lone hdigit
    obtain ⟨d, ds, hds⟩ := List.exists_cons_of_ne_nil hwell.whole.1
    have hfirst : ∀ c ∈ (t.whole ++ (fractionText t.fraction ++ (x ++ rest))).head?, c.isDigit = true := by
      rw [hds]
      rintro c ⟨rfl⟩
      exact hwell.whole.2 d (hds ▸ List.mem_cons_self)
    rw [List.append_assoc, List.append_assoc, List.append_assoc, scan_eq, run_bind_of_ok (run_minus hfirst),
      run_bind_of_ok hwhole, run_bind_of_ok hfraction, run_bind_of_ok hexponent]
    obtain ⟨negative, whole, fraction, exponent⟩ := t
    cases negative <;> rfl

/-- A character that a number may begin with. -/
theorem not_isBlank_of_begins {c : Char} (h : (c == '-' || c.isDigit) = true) : isBlank c = false := by
  cases hblank : isBlank c with
  | false => rfl
  | true =>
    simp only [isBlank, Bool.or_eq_true, beq_iff_eq] at hblank
    rcases hblank with ((rfl | rfl) | rfl) | rfl <;> exact absurd h (by decide)

theorem Spells.exists_cons {t : Token} {w : Text} (h : t.Spells w) :
    ∃ c u, w = c :: u ∧ (c == '-' || c.isDigit) = true := by
  obtain ⟨hwell, -⟩ := h
  obtain ⟨d, ds, hds⟩ := List.exists_cons_of_ne_nil hwell.whole.1
  have hd := hwell.whole.2 d (hds ▸ List.mem_cons_self)
  rw [hds]
  cases t.negative with
  | true => exact ⟨_, _, rfl, rfl⟩
  | false => exact ⟨d, _, rfl, by rw [hd, Bool.or_true]⟩

/-! ## Whole numbers -/

/-- The whole number that the digits before the point denote. -/
def int (t : Token) : Int := if t.negative then -Nat.ofDigitChars 10 t.whole 0 else Nat.ofDigitChars 10 t.whole 0

/-- Written as a whole number, without point and exponent; negative zero is none. -/
def IsInt (t : Token) : Prop := t.fraction = none ∧ t.exponent = none ∧ ¬(t.negative = true ∧ t.int = 0)

instance (t : Token) : Decidable t.IsInt := inferInstanceAs (Decidable (_ ∧ _ ∧ ¬(_ ∧ _)))

/-- A number that is written as a whole one and fits 64 bits is whole; every other one is a float. -/
theorem value_eq (t : Token) :
    t.value = if t.IsInt ∧ Int64.minValue.toInt ≤ t.int ∧ t.int < significandLimit then .ok (.whole t.int)
      else t.float.map .float := by
  have hfloat : (do return Numeral.float (← t.float) : Except Fault Numeral) = t.float.map .float := by
    cases t.float <;> rfl
  have hmin : Int64.minValue.toInt < 0 := by decide
  have hlimit : 0 < significandLimit := by decide
  unfold value
  dsimp only
  rw [hfloat]
  cases hneg : t.negative with
  | true =>
    have hint : t.int = -Nat.ofDigitChars 10 t.whole 0 := by rw [int, hneg, if_pos rfl]
    rw [if_pos rfl, ← hint]
    refine if_congr ?_ rfl rfl
    simp only [Bool.and_eq_true, Option.isNone_iff_eq_none, decide_eq_true_eq, IsInt, hneg, true_and]
    constructor
    · rintro ⟨⟨hfraction, hexponent⟩, hpos, hlow⟩
      exact ⟨⟨hfraction, hexponent, by omega⟩, hlow, by omega⟩
    · rintro ⟨⟨hfraction, hexponent, hne⟩, hlow, -⟩
      exact ⟨⟨hfraction, hexponent⟩, by omega, hlow⟩
  | false =>
    have hint : t.int = Nat.ofDigitChars 10 t.whole 0 := by rw [int, hneg, if_neg Bool.false_ne_true]
    rw [if_neg Bool.false_ne_true, ← hint]
    refine if_congr ?_ rfl rfl
    simp only [Bool.and_eq_true, Option.isNone_iff_eq_none, decide_eq_true_eq, IsInt, hneg, Bool.false_eq_true,
      false_and]
    constructor
    · rintro ⟨⟨hfraction, hexponent⟩, hfits⟩
      exact ⟨⟨hfraction, hexponent, not_false⟩, by omega, hfits⟩
    · rintro ⟨⟨hfraction, hexponent, -⟩, -, hfits⟩
      exact ⟨⟨hfraction, hexponent⟩, hfits⟩

/-- A whole number in its parts. -/
def ofInt (n : Int) : Token := ⟨decide (n < 0), Text.ofNat n.natAbs, none, none⟩

theorem text_ofInt (n : Int) : (ofInt n).text = Text.ofInt n := by
  cases n with
  | ofNat n => simp [text, ofInt, fractionText, exponentText, Binary64.sign, Text.ofInt]
  | negSucc n => simp [text, ofInt, fractionText, exponentText, Binary64.sign, Text.ofInt]

theorem digits_ofNat (n : Nat) : Digits (Text.ofNat n) :=
  ⟨Nat.toDigits_ne_nil, fun _ => Text.isDigit_of_mem_ofNat⟩

theorem wellFormed_ofInt (n : Int) : (ofInt n).WellFormed where
  whole := digits_ofNat _
  lone h := by
    by_cases h0 : n.natAbs = 0
    · show Text.ofNat n.natAbs = ['0']
      rw [h0]
      rfl
    · exact absurd h (Text.head?_ofNat_ne_zero h0)
  fraction := nofun
  exponent := nofun

theorem int_ofInt (n : Int) : (ofInt n).int = n := by
  have hread : Nat.ofDigitChars 10 (Text.ofNat n.natAbs) 0 = n.natAbs := Text.ofDigitChars_ofNat _
  unfold int ofInt
  dsimp only
  rw [hread]
  by_cases hneg : n < 0
  · rw [decide_eq_true hneg, if_pos rfl]
    omega
  · rw [decide_eq_false hneg, if_neg Bool.false_ne_true]
    omega

/-- A whole number that fits 64 bits is read as a whole number. -/
theorem value_ofInt {n : Int} (hlow : Int64.minValue.toInt ≤ n) (hhigh : n < significandLimit) :
    (ofInt n).value = .ok (.whole n) := by
  have hint := int_ofInt n
  have hwhole : (ofInt n).IsInt := by
    refine ⟨rfl, rfl, fun ⟨hneg, hzero⟩ => ?_⟩
    have hlt : n < 0 := of_decide_eq_true hneg
    omega
  rw [value_eq, hint, if_pos ⟨hwhole, hlow, hhigh⟩]

end Token

/-! ## Reading numbers -/

/-- What is refused gives no value. -/
theorem run_refuse {α : Type} (t : Text) (p : α × Text) : refuse.run t ≠ .ok p := by
  intro h
  obtain ⟨a, u⟩ := p
  obtain ⟨c, v, -, hrest⟩ := run_bind_eq_ok_iff.1 h
  -- whatever was read, a mismatch follows
  have hfail : ∀ {β : Type} (r : Reader β) (v : Text), (r >>= fun _ => throw Fault.mismatch).run v ≠ .ok (a, u) := by
    intro β r v hr
    obtain ⟨_, _, -, hthrow⟩ := run_bind_eq_ok_iff.1 hr
    cases hthrow
  dsimp only at hrest
  split at hrest
  · obtain ⟨_, _, -, hread⟩ := run_bind_eq_ok_iff.1 hrest
    exact hfail _ _ hread
  · exact hfail _ _ hrest
  · exact hfail _ _ hrest
  · exact hfail _ _ hrest
  · cases hrest
  · cases hrest
  · split at hrest
    · exact hfail _ _ hrest
    · exact hfail _ _ hrest

/-- A number is read as the value of its parts. -/
theorem reads_numeral {t : Token} {w : Text} (h : t.Spells w) : Reads numeral w t.value := by
  intro gap rest hgap hrest
  obtain ⟨c, u, htext, hc⟩ := h.exists_cons
  have hscan := Token.run_scan h hrest
  have hpeek : peek.run (gap ++ (w ++ rest)) = .ok (c, w ++ rest) := by
    rw [htext]
    exact run_peek hgap (Token.not_isBlank_of_begins hc)
  rw [numeral, run_bind_of_ok hpeek]
  show (if (c == '-' || c.isDigit) = true then Numeral.read else refuse).run _ = _
  rw [if_pos hc, Numeral.read, run_bind_of_ok hscan]
  cases t.value <;> rfl

end Watermark.Json
