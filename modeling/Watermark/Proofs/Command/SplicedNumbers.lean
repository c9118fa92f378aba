import Watermark.Proofs.Command.TrimArguments
import Watermark.Proofs.Filter.Expression
import Watermark.Proofs.Number.PlainNumeral

/-!
# The numbers in a command

Five numbers of the settings come into a command as text, in six places: the opacity, the size, twice the speed, the
seek and the length. `Spliced` holds just these texts. The stages and the command are made from them and from what has
no fractions: the offsets, the options and the image (`Settings.expressions_spliced`, `Settings.segments_spliced`). So
the six places are all there is of these numbers in a command.

After sanitizing, each number is a factor or an opacity, and its numeral is plain (`Binary64.IsFactor.readable`,
`Binary64.IsOpacity.readable`, put together in `Settings.Valid.sound`).
-/

namespace Watermark

/-! ## Numerals of sanitized numbers -/

namespace Binary64

variable {x : Binary64}

/-- A finite number above 0 has no sign. -/
theorem IsFactor.exists_magnitude (h : x.IsFactor) :
    ∃ m : Magnitude, x = .finite false m ∧ x.place = some (m.units : Int) ∧ m.units ≠ 0 := by
  obtain ⟨s, m, rfl⟩ := exists_finite h.1
  obtain ⟨p, hp, hpos⟩ := isPositive_iff.1 h.2
  cases s with
  | false =>
    have hunits : (m.units : Int) = p := Option.some.inj hp
    exact ⟨m, rfl, rfl, by omega⟩
  | true =>
    have hunits : -(m.units : Int) = p := Option.some.inj hp
    omega

theorem numeral_of_finite {m : Magnitude} (hm : m.units ≠ 0) :
    (finite false m).numeral = (m.shortest .upward).positional [] := by
  rw [(Spelled.finite false m hm).numeral_eq, sign, if_neg Bool.false_ne_true, List.nil_append]

theorem IsFactor.readable (h : x.IsFactor) :
    Decimal.IsPlain x.numeral ∧ 0 < (Decimal.ofPositional x.numeral).value := by
  obtain ⟨m, rfl, -, hm⟩ := h.exists_magnitude
  rw [numeral_of_finite hm]
  exact ⟨Decimal.isPlain_positional (Magnitude.digits_shortest _ hm),
    Decimal.value_pos (Decimal.nearest?_ofPositional_shortest _ m) hm⟩

/-- A number below 1 has a numeral below 1, and 1 has the numeral `1`. -/
theorem IsFactor.value_le_one (h : x.IsFactor) (hle : x.le one = true) :
    (Decimal.ofPositional x.numeral).value ≤ 1 := by
  obtain ⟨m, hx, hplace, hm⟩ := h.exists_magnitude
  obtain ⟨p, q, hp, hq, hpq⟩ := le_iff.1 hle
  cases hplace.symm.trans hp
  cases place_one.symm.trans hq
  rcases Nat.lt_or_eq_of_le (Int.ofNat_le.1 hpq) with hlt | heq
  · rw [hx, numeral_of_finite hm]
    exact (Decimal.value_lt_one (Decimal.nearest?_ofPositional_shortest _ m) hlt).le
  · have hsame : x.same one = true := by
      rw [same_iff_place, hplace, place_one, heq]
      exact ⟨rfl, nofun⟩
    have hone : one.numeral = "1".toList := by decide +kernel
    have hdecimal : Decimal.ofPositional "1".toList = ⟨1, 0⟩ := by decide
    rw [numeral_congr hsame, hone, hdecimal, Decimal.value]
    norm_num

theorem IsOpacity.readable (h : x.IsOpacity) :
    Decimal.IsPlain x.numeral ∧ 0 ≤ (Decimal.ofPositional x.numeral).value
      ∧ (Decimal.ofPositional x.numeral).value ≤ 1 := by
  by_cases hpositive : x.isPositive = true
  · have hfactor : x.IsFactor := ⟨h.isFinite, hpositive⟩
    exact ⟨hfactor.readable.1, hfactor.readable.2.le, hfactor.value_le_one h.2⟩
  · have hsame := same_orZero h.1
    rw [orZero, if_neg hpositive, same_comm] at hsame
    have hplain : Decimal.IsPlain "0".toList := .inl Json.Token.digits_zero
    have hdecimal : Decimal.ofPositional "0".toList = ⟨0, 0⟩ := by decide
    rw [numeral_of_same_zero hsame, hdecimal, Decimal.value, Nat.cast_zero, zero_mul]
    exact ⟨hplain, le_rfl, by norm_num⟩

end Binary64

/-! ## The places of numbers -/

/-- The texts of the numbers in a command. -/
structure Spliced where
  opacity : Text
  /-- The factor of the size, none for the size of the image. -/
  scale : Option Text
  /-- What the time stamps are divided by, none at the speed of the source. -/
  divisor : Option Text
  /-- The factor of the audio. -/
  tempo : Option Text
  /-- The seconds to skip. -/
  seek : Option Text
  /-- The seconds to keep. -/
  length : Option Text

namespace Spliced

/-- Every text is a plain numeral, of a number from 0 to 1 or above 0, and the audio has the factor of the picture. -/
structure Sound (n : Spliced) : Prop where
  opacity : Decimal.IsPlain n.opacity
  opacity_nonneg : 0 ≤ (Decimal.ofPositional n.opacity).value
  opacity_le_one : (Decimal.ofPositional n.opacity).value ≤ 1
  factors : ∀ o ∈ [n.scale, n.divisor, n.tempo, n.seek, n.length], ∀ t ∈ o,
    Decimal.IsPlain t ∧ 0 < (Decimal.ofPositional t).value
  tempo_eq_divisor : ∀ t ∈ n.tempo, n.divisor = some t

/-- The size behind the opacity, where there is one. -/
def scaling : Option Text → Text
  | some t => ",scale=iw*".toList ++ t ++ ":-1".toList
  | none => []

/-- The expressions of the stages around the numbers. -/
def expressions (n : Spliced) (x y : Int64) (a : Aspect) (r : Resolution) : Stream → Option Text
  | .source | .image => none
  | .watermark => some ("format=rgba,colorchannelmixer=aa=".toList ++ n.opacity ++ scaling n.scale)
  | .composite => some ("overlay=".toList ++ Text.ofInt x.toInt ++ ':' :: Text.ofInt y.toInt)
  | .retimed => n.divisor.map ("setpts=PTS/".toList ++ ·)
  | .cropped => a.ratio?.map Filter.cropExpression
  | .resized => r.height?.map fun h => "scale=-1:".toList ++ Text.ofNat h

/-- A flag with its number, where there is one. -/
def flagged (flag : Text) : Option Text → List Segment
  | some t => Template.word flag ++ Template.bare t
  | none => []

def soundtrack : Option Text → List Segment
  | some t => Template.word "-filter:a".toList ++ Template.quoted (.value ("atempo=".toList ++ t))
  | none => [" -map", " 0:a", " -c:a", " copy"].map fun w => .fixed w.toList

/-- The segments of the command around the numbers and the chain. -/
def segments (n : Spliced) (c : Chain) (image : Text) : List Segment :=
  .fixed "ffmpeg".toList :: flagged "-ss".toList n.seek ++ flagged "-t".toList n.length
    ++ Template.word "-i".toList ++ Template.quoted .input
    ++ Template.word "-i".toList ++ Template.quoted (.value image)
    ++ Template.word "-filter_complex".toList ++ Template.quoted (.value c.pipeline)
    ++ Template.word "-map".toList ++ Template.quoted (.value c.active.label)
    ++ soundtrack n.tempo ++ Template.quoted .output

end Spliced

namespace Settings

/-- The texts of the numbers in the command of the edit. -/
def spliced (s : Settings) : Spliced where
  opacity := s.opacity.numeral
  scale := if s.scale.same .one then none else some s.scale.numeral
  divisor := if s.changesSpeed then some s.videoSpeed.numeral else none
  tempo := if s.changesSpeed && s.audio == .sync then some s.videoSpeed.numeral else none
  seek := s.trimWindow.seek.map Binary64.numeral
  length := s.trimWindow.length.map Binary64.numeral

variable (s : Settings)

theorem scaling_spliced : Spliced.scaling s.spliced.scale = Filter.scaling s.scale := by
  show Spliced.scaling (if s.scale.same .one then none else some s.scale.numeral) = _
  unfold Filter.scaling
  split
  · rfl
  · rfl

theorem expressions_spliced : s.expressions = s.spliced.expressions s.x s.y s.aspect s.resolution := by
  funext t
  cases t with
  | source => rfl
  | image => rfl
  | watermark =>
    exact congrArg (fun t => some ("format=rgba,colorchannelmixer=aa=".toList ++ s.opacity.numeral ++ t))
      s.scaling_spliced.symm
  | composite => rfl
  | retimed =>
    show s.retiming?.map Filter.expression = Option.map _ (if s.changesSpeed then some s.videoSpeed.numeral else none)
    unfold retiming?
    split
    · rfl
    · rfl
  | cropped => rfl
  | resized => rfl

theorem flagged_map (flag : Text) (t : Option Binary64) :
    Spliced.flagged flag (t.map Binary64.numeral) = Template.timed flag t := by
  cases t with
  | none => rfl
  | some t => rfl

theorem soundtrack_spliced : Spliced.soundtrack s.spliced.tempo = Template.soundtrack s.soundtrack := by
  show Spliced.soundtrack (if s.changesSpeed && s.audio == .sync then some s.videoSpeed.numeral else none) = _
  unfold soundtrack
  split
  · rfl
  · rfl

theorem segments_spliced (image : Text) : (s.template image).segments = s.spliced.segments s.chain image := by
  rw [Spliced.segments, soundtrack_spliced, template, Template.assemble]
  simp only [spliced, flagged_map]

/-- What a window holds is finite, if the times are. -/
theorem Valid.isFactor_of_mem_trimWindow {s : Settings} (h : s.Valid) {d : Binary64} :
    (d ∈ s.trimWindow.length → d.IsFactor) ∧ (d ∈ s.trimWindow.seek → d.IsFactor) := by
  have hpositive := s.isPositive_of_mem_trimWindow (d := d)
  refine ⟨fun hd => ⟨?_, hpositive.1 hd⟩, fun hd => ⟨?_, hpositive.2 hd⟩⟩
  · rw [trimWindow, Option.mem_ite_none_right, Option.mem_some_iff] at hd
    exact hd.2 ▸ h.isFinite_effectiveDuration
  · rw [trimWindow, Option.mem_ite_none_right, Option.mem_some_iff] at hd
    exact hd.2 ▸ h.startTime.1

/-- The numbers of valid settings are written as plain numerals. -/
theorem Valid.sound {s : Settings} (h : s.Valid) : s.spliced.Sound := by
  have hscale := h.scale.readable
  have hspeed := h.videoSpeed.readable
  obtain ⟨hplain, hnonneg, hle⟩ := h.opacity.readable
  refine ⟨hplain, hnonneg, hle, ?_, fun t ht => ?_⟩
  · simp only [List.forall_mem_cons, spliced, Option.mem_ite_none_left, Option.mem_ite_none_right, Option.mem_some_iff,
      Option.mem_map]
    refine ⟨?_, ?_, ?_, ?_, ?_, List.forall_mem_nil _⟩
    · rintro t ⟨-, rfl⟩
      exact hscale
    · rintro t ⟨-, rfl⟩
      exact hspeed
    · rintro t ⟨-, rfl⟩
      exact hspeed
    · rintro t ⟨d, hd, rfl⟩
      exact (h.isFactor_of_mem_trimWindow.2 hd).readable
    · rintro t ⟨d, hd, rfl⟩
      exact (h.isFactor_of_mem_trimWindow.1 hd).readable
  · simp only [spliced, Option.mem_ite_none_right, Option.mem_some_iff, Bool.and_eq_true] at ht
    simp only [spliced, if_pos ht.1.1, ht.2]

end Settings

/-- Sanitized settings put no broken number into a command. Whatever the numbers were before, the stages of the picture
and the segments of the command are made from fixed words, the offsets, the options, the image and the texts of numbers
in six places. These texts are plain numerals, the opacity of a number from 0 to 1 and all others of numbers above 0,
and where the audio is retimed, it has the numeral that divides the time stamps of the picture. -/
theorem spliced_numbers_plain (s : Settings) :
    let u := s.sanitized
    ∃ n : Spliced, n.Sound
      ∧ u.chain.expressionOf = n.expressions u.x u.y u.aspect u.resolution
      ∧ ∀ image, (u.template image).segments = n.segments u.chain image := by
  intro u
  refine ⟨u.spliced, s.valid_sanitized.sound, ?_, u.segments_spliced⟩
  rw [← u.expressions_spliced]
  exact funext u.expressionOf_chain

end Watermark
