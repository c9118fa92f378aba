import Mathlib.Algebra.Order.Field.Rat
import Mathlib.Tactic.Linarith
import Mathlib.Tactic.Ring
import Watermark.Proofs.Filter.Arithmetic
import Watermark.Proofs.Filter.Expression

/-!
# The window of a crop

A crop cuts out the largest window of its shape, in the middle of the frame. Its text is cut at the quotes, and the
four quoted pieces are read as arithmetic: width and height of the window from those of the frame, and the two margins
from both.

* `Window.largestCentered`: what the four values mean for the window;
* `Filter.denotes_factor`: a shape is one factor, whatever it stands behind;
* `Filter.evaluate?_width`, `Filter.evaluate?_height`: the values of the first two pieces;
* `crop_largest_centered`: the text of the crop of an edit is read as such a window.
-/

namespace Watermark

open Arithmetic (Denotes Environment Expression Token evaluate? read? tokens)

/-! ## The window -/

/-- A window of width `w` and height `h` at the margins `x` and `y` in a frame of width `iw` and height `ih`. -/
structure Window.IsLargestCentered (ratio iw ih w h x y : ℚ) : Prop where
  shape : w = ratio * h
  width_pos : 0 < w
  width_le : w ≤ iw
  height_pos : 0 < h
  height_le : h ≤ ih
  touches : w = iw ∨ h = ih
  /-- No larger window of the shape fits into the frame. -/
  largest : ∀ w' h', w' = ratio * h' → w' ≤ iw → h' ≤ ih → w' ≤ w ∧ h' ≤ h
  left_nonneg : 0 ≤ x
  top_nonneg : 0 ≤ y
  /-- The margins on opposite sides are equal. -/
  left_eq_right : x = iw - (x + w)
  top_eq_bottom : y = ih - (y + h)

namespace Window

variable {ratio iw ih w h : ℚ}

/-- A window that fits and touches two sides is the largest, and half of what is left on either side centers it. -/
theorem IsLargestCentered.of_touches (hr : 0 < ratio) (hshape : w = ratio * h) (hpos : 0 < h) (hw : w ≤ iw)
    (hh : h ≤ ih) (htouch : w = iw ∨ h = ih) :
    IsLargestCentered ratio iw ih w h ((iw - w) / 2) ((ih - h) / 2) where
  shape := hshape
  width_pos := hshape ▸ mul_pos hr hpos
  width_le := hw
  height_pos := hpos
  height_le := hh
  touches := htouch
  largest w' h' hshape' hw' hh' := by
    rcases htouch with rfl | rfl
    · refine ⟨hw', ?_⟩
      rw [hshape, hshape'] at hw'
      exact le_of_mul_le_mul_left hw' hr
    · refine ⟨?_, hh'⟩
      rw [hshape, hshape']
      exact mul_le_mul_of_nonneg_left hh' hr.le
  left_nonneg := by linarith
  top_nonneg := by linarith
  left_eq_right := by ring
  top_eq_bottom := by ring

/-- The lesser of the frame's own width and the one that its height allows, and so with the height. -/
theorem largestCentered (hr : 0 < ratio) (hw : 0 < iw) (hh : 0 < ih) :
    IsLargestCentered ratio iw ih (min iw (ih * ratio)) (min ih (iw / ratio))
      ((iw - min iw (ih * ratio)) / 2) ((ih - min ih (iw / ratio)) / 2) := by
  rcases le_total iw (ih * ratio) with hle | hle
  · have hheight : iw / ratio ≤ ih := (div_le_iff₀ hr).2 hle
    rw [min_eq_left hle, min_eq_right hheight]
    exact .of_touches hr (mul_div_cancel₀ iw hr.ne').symm (div_pos hw hr) (le_refl iw) hheight (.inl rfl)
  · have hheight : ih ≤ iw / ratio := (le_div_iff₀ hr).2 hle
    rw [min_eq_right hle, min_eq_left hheight]
    exact .of_touches hr (mul_comm ih ratio) hh hle (le_refl ih) (.inr rfl)

end Window

/-! ## The shape -/

/-- The width of a frame of the shape, as so many times its height. -/
def Ratio.value (r : Ratio) : ℚ := r.width / r.height

namespace Filter

/-- A shape as it is read. -/
def shapeExpression (r : Ratio) : Expression :=
  if r.height = 1 then .number r.width else .binary .div (.number r.width) (.number r.height)

/-- The tokens of a shape as a factor. -/
def factorTokens (r : Ratio) : List Token :=
  if r.height = 1 then [.word (Text.ofNat r.width)]
  else .symbol '(' :: ([.word (Text.ofNat r.width), .symbol '/', .word (Text.ofNat r.height)] ++ [.symbol ')'])

theorem tokens_word_append {w : Text} (hne : w ≠ []) (hw : w.All Char.isAlphanum) {c : Char}
    (hc : c.isAlphanum = false) (t : Text) : tokens (w ++ c :: t) = .word w :: .symbol c :: tokens t := by
  have hstop : ∀ d ∈ (c :: t).head?, d.isAlphanum = false := by
    rintro d ⟨rfl⟩
    exact hc
  rw [Arithmetic.tokens_word hne hw hstop, Arithmetic.tokens_symbol hc]

theorem tokens_ofNat_append (n : Nat) {c : Char} (hc : c.isAlphanum = false) (t : Text) :
    tokens (Text.ofNat n ++ c :: t) = .word (Text.ofNat n) :: .symbol c :: tokens t := by
  refine tokens_word_append Nat.toDigits_ne_nil (fun d hd => ?_) hc t
  rw [Char.isAlphanum, Text.isDigit_of_mem_ofNat hd, Bool.or_true]

theorem tokens_factor (r : Ratio) {c : Char} (hc : c.isAlphanum = false) (t : Text) :
    tokens (factor r ++ c :: t) = factorTokens r ++ .symbol c :: tokens t := by
  unfold factor factorTokens Ratio.expression
  split
  · exact tokens_ofNat_append r.width hc t
  · simp only [List.cons_append, List.append_assoc, List.nil_append]
    rw [Arithmetic.tokens_symbol (by decide), tokens_ofNat_append _ (by decide), tokens_ofNat_append _ (by decide),
      Arithmetic.tokens_symbol hc]

theorem denotes_ofNat (n : Nat) : Denotes .atom [.word (Text.ofNat n)] (.number n) := by
  have hword : Text.ofNat n ≠ Arithmetic.minWord := by
    intro h
    have hletter : 'm' ∈ Text.ofNat n := h ▸ List.mem_cons_self
    exact absurd (Text.isDigit_of_mem_ofNat hletter) (by decide)
  rw [← Expression.ofWord_ofNat]
  exact .word _ hword

/-- A shape is one factor: a quotient stands in parentheses. -/
theorem denotes_factor (r : Ratio) : Denotes .atom (factorTokens r) (shapeExpression r) := by
  unfold factorTokens shapeExpression
  split
  · exact denotes_ofNat r.width
  · exact .group (.product (.div (.atom (denotes_ofNat r.width)) (denotes_ofNat r.height)))

theorem value?_shapeExpression (env : Environment) {r : Ratio} (h : 0 < r.height) :
    (shapeExpression r).value? env = some r.value := by
  unfold shapeExpression Ratio.value
  split
  · rename_i hone
    rw [hone, Nat.cast_one, div_one]
    rfl
  · have hne : (r.height : ℚ) ≠ 0 := Nat.cast_ne_zero.2 h.ne'
    exact if_neg hne

/-! ## The pieces of a crop -/

/-- The lesser of a side of the frame and the length that the other side allows. -/
def limit (own other : Text) (sign : Char) (r : Ratio) : Text :=
  Arithmetic.minWord ++ '(' :: (own ++ ',' :: (other ++ sign :: (factor r ++ [')'])))

/-- The name of a side. -/
structure IsName (w : Text) : Prop where
  ne_nil : w ≠ []
  alphanum : w.All Char.isAlphanum
  ne_min : w ≠ Arithmetic.minWord
  letter : w.all Char.isDigit = false

theorem IsName.denotes {w : Text} (h : IsName w) : Denotes .atom [.word w] (.name w) := by
  have hname : Expression.ofWord w = .name w := by
    rw [Expression.ofWord, h.letter]
    rfl
  exact hname ▸ .word w h.ne_min

theorem isName_iw : IsName "iw".toList := ⟨by decide, by decide, by decide, by decide⟩

theorem isName_ih : IsName "ih".toList := ⟨by decide, by decide, by decide, by decide⟩

variable {r : Ratio}

theorem tokens_limit {own other : Text} (hown : IsName own) (hother : IsName other) {sign : Char}
    (hsign : sign.isAlphanum = false) :
    tokens (limit own other sign r) = .word Arithmetic.minWord :: .symbol '(' :: ([.word own] ++ .symbol ','
      :: (([.word other] ++ .symbol sign :: factorTokens r) ++ [.symbol ')'])) := by
  rw [limit, tokens_word_append (by decide) (by decide) (by decide),
    tokens_word_append hown.ne_nil hown.alphanum (by decide),
    tokens_word_append hother.ne_nil hother.alphanum hsign, tokens_factor r (by decide)]
  simp [tokens]

/-- The frame that is cropped. -/
def frame (iw ih : ℚ) : Environment := [("iw".toList, iw), ("ih".toList, ih)]

variable {iw ih : ℚ}

theorem evaluate?_width (h : 0 < r.height) :
    evaluate? (frame iw ih) (limit "iw".toList "ih".toList '*' r) = some (min iw (ih * r.value)) := by
  have hdenotes : Denotes .sum (tokens (limit "iw".toList "ih".toList '*' r))
      (.min (.name "iw".toList) (.binary .mul (.name "ih".toList) (shapeExpression r))) := by
    rw [tokens_limit isName_iw isName_ih (by decide)]
    exact .product (.atom (.min (.product (.atom isName_iw.denotes))
      (.product (.mul (.atom isName_ih.denotes) (denotes_factor r)))))
  have hproduct : (Expression.binary .mul (.name "ih".toList) (shapeExpression r)).value? (frame iw ih)
      = some (ih * r.value) := by
    rw [Expression.value?, value?_shapeExpression _ h]
    rfl
  rw [Arithmetic.evaluate?_of_denotes _ hdenotes, Expression.value?, hproduct]
  rfl

theorem evaluate?_height (hw : 0 < r.width) (h : 0 < r.height) :
    evaluate? (frame iw ih) (limit "ih".toList "iw".toList '/' r) = some (min ih (iw / r.value)) := by
  have hdenotes : Denotes .sum (tokens (limit "ih".toList "iw".toList '/' r))
      (.min (.name "ih".toList) (.binary .div (.name "iw".toList) (shapeExpression r))) := by
    rw [tokens_limit isName_ih isName_iw (by decide)]
    exact .product (.atom (.min (.product (.atom isName_ih.denotes))
      (.product (.div (.atom isName_iw.denotes) (denotes_factor r)))))
  have hne : r.value ≠ 0 := div_ne_zero (Nat.cast_ne_zero.2 hw.ne') (Nat.cast_ne_zero.2 h.ne')
  have hquotient : (Expression.binary .div (.name "iw".toList) (shapeExpression r)).value? (frame iw ih)
      = some (iw / r.value) := by
    rw [Expression.value?, value?_shapeExpression _ h]
    exact if_neg hne
  rw [Arithmetic.evaluate?_of_denotes _ hdenotes, Expression.value?, hquotient]
  rfl

/-- The frame together with the window in it. -/
def framed (iw ih w h : ℚ) : Environment := frame iw ih ++ [("ow".toList, w), ("oh".toList, h)]

variable {w h : ℚ}

theorem evaluate?_left : evaluate? (framed iw ih w h) "(iw-ow)/2".toList = some ((iw - w) / 2) := by
  have hread : read? "(iw-ow)/2".toList
      = some (.binary .div (.binary .sub (.name "iw".toList) (.name "ow".toList)) (.number 2)) := by decide +kernel
  rw [evaluate?, hread]
  show (if ((2 : Nat) : ℚ) = 0 then none else some ((iw - w) / (2 : Nat))) = _
  rw [if_neg (Nat.cast_ne_zero.2 two_ne_zero), Nat.cast_ofNat]

theorem evaluate?_top : evaluate? (framed iw ih w h) "(ih-oh)/2".toList = some ((ih - h) / 2) := by
  have hread : read? "(ih-oh)/2".toList
      = some (.binary .div (.binary .sub (.name "ih".toList) (.name "oh".toList)) (.number 2)) := by decide +kernel
  rw [evaluate?, hread]
  show (if ((2 : Nat) : ℚ) = 0 then none else some ((ih - h) / (2 : Nat))) = _
  rw [if_neg (Nat.cast_ne_zero.2 two_ne_zero), Nat.cast_ofNat]

/-! ## The text of a crop -/

/-- The second part, the fourth part, and so on. -/
def everySecond : List Text → List Text
  | _ :: q :: rest => q :: everySecond rest
  | _ => []

/-- What stands in single quotes. -/
def quotedPieces (t : Text) : List Text := everySecond (t.splitOn '\'')

theorem quote_not_mem_factor (r : Ratio) : '\'' ∉ factor r := by
  have hdigits : ∀ n, '\'' ∉ Text.ofNat n := fun n h => absurd (Text.isDigit_of_mem_ofNat h) (by decide)
  unfold factor Ratio.expression
  split <;> simp [hdigits]

/-- The text of a crop, cut at its quotes. -/
def cropPieces (inputs : List Stream) (r : Ratio) : List Text :=
  [inputs.flatMap Stream.label ++ "crop=".toList, limit "iw".toList "ih".toList '*' r, [':'],
    limit "ih".toList "iw".toList '/' r, [':'], "(iw-ow)/2".toList, [':'], "(ih-oh)/2".toList, Stream.cropped.label]

theorem text_crop (inputs : List Stream) (r : Ratio) :
    Stage.text ⟨inputs, .crop r⟩ = List.intercalate ['\''] (cropPieces inputs r) := by
  have hexpression : cropExpression r
      = "crop='".toList ++ (limit "iw".toList "ih".toList '*' r ++ ("':'".toList
        ++ (limit "ih".toList "iw".toList '/' r ++ "':'(iw-ow)/2':'(ih-oh)/2'".toList))) := by
    unfold cropExpression limit
    generalize factor r = f
    simp [Arithmetic.minWord]
  have htext : Stage.text ⟨inputs, .crop r⟩
      = inputs.flatMap Stream.label ++ cropExpression r ++ Stream.cropped.label := rfl
  rw [htext, hexpression, cropPieces]
  generalize limit "iw".toList "ih".toList '*' r = width
  generalize limit "ih".toList "iw".toList '/' r = height
  generalize inputs.flatMap Stream.label = labels
  simp

theorem quotedPieces_crop (inputs : List Stream) (r : Ratio) :
    quotedPieces (Stage.text ⟨inputs, .crop r⟩)
      = [limit "iw".toList "ih".toList '*' r, limit "ih".toList "iw".toList '/' r, "(iw-ow)/2".toList,
        "(ih-oh)/2".toList] := by
  have hlabel : ∀ s : Stream, '\'' ∉ s.label := fun s => by cases s <;> decide
  have hlabels : '\'' ∉ inputs.flatMap Stream.label ++ "crop=".toList := by
    rw [List.mem_append, List.mem_flatMap, not_or]
    exact ⟨fun ⟨t, _, ht⟩ => hlabel t ht, by decide⟩
  have hlimit : ∀ own other : Text, ∀ sign, '\'' ∉ own → '\'' ∉ other → '\'' ≠ sign →
      '\'' ∉ limit own other sign r := by
    intro own other sign hown hother hsign
    simp [limit, Arithmetic.minWord, hown, hother, hsign, quote_not_mem_factor]
  have hpieces : ∀ p ∈ cropPieces inputs r, '\'' ∉ p := by
    simp only [cropPieces, List.forall_mem_cons]
    refine ⟨hlabels, hlimit _ _ _ (by decide) (by decide) (by decide), by decide,
      hlimit _ _ _ (by decide) (by decide) (by decide), by decide, by decide, by decide, by decide, by decide, nofun⟩
  have hcut : (List.intercalate ['\''] (cropPieces inputs r)).splitOn '\'' = cropPieces inputs r :=
    (Text.splitOn_intercalate_iff (List.cons_ne_nil _ _)).2 hpieces
  rw [quotedPieces, text_crop, hcut]
  rfl

end Filter

namespace Settings

theorem crop_stages {s : Settings} {r : Ratio} (h : s.aspect.ratio? = some r) :
    ∃ t, (s.chain.stages.filter fun g => g.role == .crop) = [⟨[t], .crop r⟩] := by
  obtain ⟨speed, hspeed⟩ := s.exists_retiming
  unfold chain
  rw [hspeed, h]
  generalize s.resolution.height? = height
  cases speed <;> cases height <;> exact ⟨_, rfl⟩

end Settings

/-- An aspect other than that of the source is a shape, whose sides its word names. -/
theorem Aspect.exists_ratio {a : Aspect} (h : a ≠ .asSource) :
    ∃ r, a.ratio? = some r ∧ 0 < r.width ∧ 0 < r.height
      ∧ Choice.word a = Text.ofNat r.width ++ ':' :: Text.ofNat r.height := by
  cases a with
  | asSource => exact absurd rfl h
  | widescreen => exact ⟨_, rfl, by decide, by decide, by decide⟩
  | portrait => exact ⟨_, rfl, by decide, by decide, by decide⟩
  | square => exact ⟨_, rfl, by decide, by decide, by decide⟩
  | classic => exact ⟨_, rfl, by decide, by decide, by decide⟩

/-- Four quoted expressions stand in the text. In a frame of width `iw` and height `ih` the first two are the width and
the height of a window, and with these the other two are its margins to the left and above; the window is the largest
of its shape, in the middle of the frame. -/
def ReadsAsWindow (t : Text) (ratio iw ih : ℚ) : Prop :=
  ∃ width height left top, Filter.quotedPieces t = [width, height, left, top]
    ∧ ∃ ow oh x y : ℚ, evaluate? [("iw".toList, iw), ("ih".toList, ih)] width = some ow
      ∧ evaluate? [("iw".toList, iw), ("ih".toList, ih)] height = some oh
      ∧ evaluate? [("iw".toList, iw), ("ih".toList, ih), ("ow".toList, ow), ("oh".toList, oh)] left = some x
      ∧ evaluate? [("iw".toList, iw), ("ih".toList, ih), ("ow".toList, ow), ("oh".toList, oh)] top = some y
      ∧ Window.IsLargestCentered ratio iw ih ow oh x y

/-- An edit with an aspect of its own has one crop, and the text of that stage is read as a window of this aspect in
every frame. -/
theorem crop_largest_centered {s : Settings} (h : s.aspect ≠ .asSource) {iw ih : Nat} (hw : 0 < iw) (hh : 0 < ih) :
    ∃ (r : Ratio) (stage : Stage), Choice.word s.aspect = Text.ofNat r.width ++ ':' :: Text.ofNat r.height
      ∧ (s.chain.stages.filter fun g => g.role == .crop) = [stage]
      ∧ ReadsAsWindow stage.text (r.width / r.height) iw ih := by
  obtain ⟨r, hr, hwidth, hheight, hword⟩ := Aspect.exists_ratio h
  obtain ⟨t, hstage⟩ := Settings.crop_stages hr
  have hvalue : 0 < r.value := div_pos (Nat.cast_pos.2 hwidth) (Nat.cast_pos.2 hheight)
  refine ⟨r, _, hword, hstage, _, _, _, _, Filter.quotedPieces_crop [t] r, _, _, _, _,
    Filter.evaluate?_width hheight, Filter.evaluate?_height hwidth hheight, Filter.evaluate?_left,
    Filter.evaluate?_top, ?_⟩
  exact Window.largestCentered hvalue (Nat.cast_pos.2 hw) (Nat.cast_pos.2 hh)

/-- A portrait window in a frame that is wider than high. -/
theorem crop_portrait_centered :
    let s := { Settings.initial with aspect := .portrait }
    s.aspect ≠ .asSource ∧ 0 < 1920 ∧ 0 < 1080
      ∧ ∃ (r : Ratio) (stage : Stage), Choice.word s.aspect = Text.ofNat r.width ++ ':' :: Text.ofNat r.height
        ∧ (s.chain.stages.filter fun g => g.role == .crop) = [stage]
        ∧ ReadsAsWindow stage.text (r.width / r.height) (1920 : Nat) (1080 : Nat) := by
  intro s
  have haspect : s.aspect ≠ .asSource := by decide
  exact ⟨haspect, by decide, by decide, crop_largest_centered haspect (by decide) (by decide)⟩

end Watermark
