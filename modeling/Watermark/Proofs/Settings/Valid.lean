import Watermark.Proofs.Settings.Sanitized

/-!
# Sanitizing is a retraction

The settings that a command can express are the valid ones (`Settings.Valid`). Sanitizing leads into them and moves
nothing that is there already. Every field is repaired by a function of its own, and each of these functions is a
`Retraction` onto the values that its field may have:

* `Binary64.retraction_asOpacity`, `Binary64.retraction_positiveOrOne` and `Binary64.retraction_finiteOrZero` for the
  numbers, which are compared as numbers;
* `Extension.retraction_normalize` and `Settings.retraction_folderOr` for the texts;
* `Settings.retraction_sanitized` puts them together.
-/

namespace Watermark

/-- `f` leads every value into `ok` and leaves what is there as it is, up to `same`. -/
structure Retraction {α : Type} (same : α → α → Bool) (f : α → α) (ok : α → Prop) : Prop where
  ok_apply : ∀ x, ok (f x)
  same_of_ok : ∀ x, ok x → same (f x) x = true
  ok_of_same : ∀ x y, same x y = true → ok x → ok y
  idempotent : ∀ x, f (f x) = f x

namespace Retraction

variable {α : Type} {same : α → α → Bool} {f : α → α} {ok : α → Prop}

/-- Nothing else is left as it is. -/
theorem same_iff (h : Retraction same f ok) (x : α) : same (f x) x = true ↔ ok x :=
  ⟨fun hs => h.ok_of_same _ _ hs (h.ok_apply x), h.same_of_ok x⟩

/-- Where no value in `ok` is moved at all, running twice is running once. -/
theorem of_eq_self (hok : ∀ x, ok (f x)) (hself : ∀ x, ok x → f x = x) (hrefl : ∀ x, ok x → same x x = true)
    (hcongr : ∀ x y, same x y = true → ok x → ok y) : Retraction same f ok where
  ok_apply := hok
  same_of_ok x hx := by rw [hself x hx, hrefl x hx]
  ok_of_same := hcongr
  idempotent x := hself _ (hok x)

/-- Texts are compared character by character. -/
theorem of_text {f : Text → Text} {ok : Text → Prop} (hok : ∀ t, ok (f t)) (hself : ∀ t, ok t → f t = t) :
    Retraction (· == ·) f ok :=
  of_eq_self hok hself (fun t _ => beq_self_eq_true t) fun s t hs h => by
    rw [beq_iff_eq] at hs
    exact hs ▸ h

end Retraction

/-! ## Numbers -/

namespace Binary64

/-- From 0 to 1. -/
def IsOpacity (x : Binary64) : Prop := zero.le x = true ∧ x.le one = true

/-- A finite number above 0. -/
def IsFactor (x : Binary64) : Prop := x.isFinite = true ∧ x.isPositive = true

/-- A finite number from 0 on. -/
def IsTime (x : Binary64) : Prop := x.isFinite = true ∧ zero.le x = true

instance (x : Binary64) : Decidable x.IsOpacity := inferInstanceAs (Decidable (_ ∧ _))

instance (x : Binary64) : Decidable x.IsFactor := inferInstanceAs (Decidable (_ ∧ _))

instance (x : Binary64) : Decidable x.IsTime := inferInstanceAs (Decidable (_ ∧ _))

variable {x y : Binary64}

theorem isFactor_one : one.IsFactor := by
  decide +kernel

theorem zero_le_one : zero.le one = true := le_of_lt isFactor_one.2

theorem IsOpacity.isFinite (h : x.IsOpacity) : x.isFinite = true :=
  isFinite_of_between rfl isFactor_one.1 h.1 h.2

theorem IsFactor.positiveOrOne (h : x.IsFactor) : x.positiveOrOne = x := by
  rw [Binary64.positiveOrOne, h.1, h.2]
  rfl

theorem IsOpacity.asOpacity (h : x.IsOpacity) : x.asOpacity = x := by
  rw [Binary64.asOpacity, if_pos h.isFinite, clamp_eq_self h.1 h.2]

theorem isOpacity_asOpacity (x : Binary64) : x.asOpacity.IsOpacity := by
  unfold Binary64.asOpacity
  split
  · exact clamp_between zero_le_one (ne_nan_of_isFinite ‹_›)
  · exact ⟨zero_le_one, le_refl one_ne_nan⟩

theorem isFactor_positiveOrOne (x : Binary64) : x.positiveOrOne.IsFactor := by
  unfold Binary64.positiveOrOne
  split
  · rename_i h
    rw [Bool.and_eq_true] at h
    exact h
  · exact isFactor_one

theorem isTime_finiteOrZero (x : Binary64) : x.finiteOrZero.IsTime := by
  have hzero : zero.IsTime := by decide
  unfold Binary64.finiteOrZero
  split
  · unfold orZero
    split
    · exact ⟨‹_›, le_of_lt ‹_›⟩
    · exact hzero
  · exact hzero

theorem finiteOrZero_eq (h : x.IsTime) : x.finiteOrZero = x.orZero := by
  rw [finiteOrZero, if_pos h.1]

theorem retraction_asOpacity : Retraction same Binary64.asOpacity IsOpacity :=
  .of_eq_self isOpacity_asOpacity (fun _ h => h.asOpacity) (fun _ h => same_self (ne_nan_of_isFinite h.isFinite))
    fun x y hs h => by
      have hself : ∀ z : Binary64, z ≠ .nan → z.same z = true := fun z => same_self
      rw [IsOpacity, ← le_congr (hself zero nofun) hs, ← le_congr hs (hself one one_ne_nan)]
      exact h

theorem retraction_positiveOrOne : Retraction same Binary64.positiveOrOne IsFactor :=
  .of_eq_self isFactor_positiveOrOne (fun _ h => h.positiveOrOne) (fun _ h => same_self (ne_nan_of_isFinite h.1))
    fun x y hs h => by
      rw [IsFactor, ← isFinite_congr hs, ← isPositive_congr hs]
      exact h

/-- Here a negative zero moves to the positive one, which is the same number. -/
theorem retraction_finiteOrZero : Retraction same finiteOrZero IsTime where
  ok_apply := isTime_finiteOrZero
  same_of_ok x h := by
    rw [finiteOrZero_eq h]
    exact same_orZero h.2
  ok_of_same x y hs h := by
    rw [IsTime, ← isFinite_congr hs, ← le_congr (x := zero) (same_self nofun) hs]
    exact h
  idempotent x := by
    rw [finiteOrZero_eq (isTime_finiteOrZero x)]
    rcases x.finiteOrZero_positive with h | h
    · rw [orZero, if_pos h]
    · rw [h, orZero_of_same_zero (same_self nofun)]

end Binary64

/-! ## Texts -/

namespace Extension

theorem allowed_iff {c : Char} : allowed c = true ↔ c.isAlphanum = true ∨ c = '.' ∨ c = '_' ∨ c = '-' := by
  simp only [allowed, Bool.or_eq_true, beq_iff_eq, or_assoc]

/-- An extension that a glob and a file name can hold: letters, digits, dots, underscores and hyphens, with no dot in
front. -/
structure WellFormed (t : Text) : Prop where
  ne_nil : t ≠ []
  chars : ∀ c ∈ t, c.isAlphanum = true ∨ c = '.' ∨ c = '_' ∨ c = '-'
  head : t.head? ≠ some '.'

theorem wellFormed_normalize (t : Text) : WellFormed (normalize t) where
  ne_nil := by
    unfold normalize
    split
    · decide
    · assumption
  chars c hc := allowed_iff.1 (all_normalize t c hc)
  head := by
    unfold normalize
    split
    · decide
    · have hhead := List.head?_dropWhile_not (· == '.') (t.filter allowed)
      intro h
      rw [h] at hhead
      cases hhead

/-- Nothing is filtered out, and nothing is dropped in front. -/
theorem WellFormed.normalize {t : Text} (h : WellFormed t) : normalize t = t := by
  have hfilter : t.filter allowed = t := List.filter_eq_self.2 fun c hc => allowed_iff.2 (h.chars c hc)
  obtain ⟨c, r, rfl⟩ := List.exists_cons_of_ne_nil h.ne_nil
  have hdot : ¬ (c == '.') = true := fun hc => h.head (congrArg some (eq_of_beq hc))
  rw [Extension.normalize, hfilter, List.dropWhile_cons_of_neg (p := (· == '.')) hdot]

theorem retraction_normalize : Retraction (· == ·) Extension.normalize WellFormed :=
  .of_text wellFormed_normalize fun _ h => h.normalize

end Extension

namespace Settings

/-- A name for a folder: not everything in it is blank. -/
def IsFolder (t : Text) : Prop := ∃ c ∈ t, Text.isBlank c = false

theorem isFolder_iff {t : Text} : IsFolder t ↔ t.allBlank = false := by
  rw [Text.allBlank, List.all_eq_false]
  exact exists_congr fun c => and_congr_right fun _ => Bool.eq_false_iff

/-- A text that is no name is repaired, if the fallback is one. -/
theorem retraction_folderOr {fallback : Text} (h : fallback.allBlank = false) :
    Retraction (· == ·) (folderOr fallback) IsFolder := by
  refine .of_text (fun t => ?_) fun t ht => ?_
  · rw [isFolder_iff, folderOr]
    split
    · exact h
    · exact Bool.eq_false_iff.2 ‹_›
  · rw [folderOr, isFolder_iff.1 ht]
    rfl

theorem retraction_inputFolder : Retraction (· == ·) (folderOr defaultInputFolder) IsFolder :=
  retraction_folderOr (by decide)

theorem retraction_outputFolder : Retraction (· == ·) (folderOr defaultOutputFolder) IsFolder :=
  retraction_folderOr (by decide)

/-! ## Settings -/

/-- The settings that a command can express. -/
structure Valid (s : Settings) : Prop where
  opacity : s.opacity.IsOpacity
  scale : s.scale.IsFactor
  startTime : s.startTime.IsTime
  endTime : s.endTime.IsTime
  videoSpeed : s.videoSpeed.IsFactor
  inputFolder : IsFolder s.inputFolder
  outputFolder : IsFolder s.outputFolder
  extension : Extension.WellFormed s.extension

variable {s t : Settings}

theorem same_iff : s.same t = true ↔
    s.opacity.same t.opacity = true ∧ s.x = t.x ∧ s.y = t.y ∧ s.scale.same t.scale = true
      ∧ s.startTime.same t.startTime = true ∧ s.endTime.same t.endTime = true
      ∧ s.videoSpeed.same t.videoSpeed = true ∧ s.audio = t.audio ∧ s.aspect = t.aspect
      ∧ s.resolution = t.resolution ∧ s.batch = t.batch ∧ s.inputFolder = t.inputFolder
      ∧ s.outputFolder = t.outputFolder ∧ s.extension = t.extension := by
  simp only [same, Bool.and_eq_true, beq_iff_eq, and_assoc]

theorem valid_sanitized (s : Settings) : s.sanitized.Valid where
  opacity := Binary64.retraction_asOpacity.ok_apply _
  scale := Binary64.retraction_positiveOrOne.ok_apply _
  startTime := Binary64.retraction_finiteOrZero.ok_apply _
  endTime := Binary64.retraction_finiteOrZero.ok_apply _
  videoSpeed := Binary64.retraction_positiveOrOne.ok_apply _
  inputFolder := retraction_inputFolder.ok_apply _
  outputFolder := retraction_outputFolder.ok_apply _
  extension := Extension.retraction_normalize.ok_apply _

theorem Valid.same_sanitized (h : s.Valid) : s.sanitized.same s = true := by
  have hin := eq_of_beq (retraction_inputFolder.same_of_ok _ h.inputFolder)
  have hout := eq_of_beq (retraction_outputFolder.same_of_ok _ h.outputFolder)
  have hext := eq_of_beq (Extension.retraction_normalize.same_of_ok _ h.extension)
  exact same_iff.2 ⟨Binary64.retraction_asOpacity.same_of_ok _ h.opacity, rfl, rfl,
    Binary64.retraction_positiveOrOne.same_of_ok _ h.scale,
    Binary64.retraction_finiteOrZero.same_of_ok _ h.startTime,
    Binary64.retraction_finiteOrZero.same_of_ok _ h.endTime,
    Binary64.retraction_positiveOrOne.same_of_ok _ h.videoSpeed, rfl, rfl, rfl, rfl, hin, hout, hext⟩

theorem Valid.of_same (hs : s.same t = true) (h : s.Valid) : t.Valid := by
  obtain ⟨hopacity, -, -, hscale, hstart, hend, hspeed, -, -, -, -, hin, hout, hext⟩ := same_iff.1 hs
  exact {
    opacity := Binary64.retraction_asOpacity.ok_of_same _ _ hopacity h.opacity
    scale := Binary64.retraction_positiveOrOne.ok_of_same _ _ hscale h.scale
    startTime := Binary64.retraction_finiteOrZero.ok_of_same _ _ hstart h.startTime
    endTime := Binary64.retraction_finiteOrZero.ok_of_same _ _ hend h.endTime
    videoSpeed := Binary64.retraction_positiveOrOne.ok_of_same _ _ hspeed h.videoSpeed
    inputFolder := hin ▸ h.inputFolder
    outputFolder := hout ▸ h.outputFolder
    extension := hext ▸ h.extension }

theorem sanitized_sanitized (s : Settings) : s.sanitized.sanitized = s.sanitized := by
  simp only [sanitized, Binary64.retraction_asOpacity.idempotent, Binary64.retraction_positiveOrOne.idempotent,
    Binary64.retraction_finiteOrZero.idempotent, retraction_inputFolder.idempotent,
    retraction_outputFolder.idempotent, Extension.retraction_normalize.idempotent]

theorem retraction_sanitized : Retraction same sanitized Valid where
  ok_apply := valid_sanitized
  same_of_ok _ h := h.same_sanitized
  ok_of_same _ _ hs h := h.of_same hs
  idempotent := sanitized_sanitized

/-- Whether settings are valid is found out by sanitizing them. -/
instance (s : Settings) : Decidable s.Valid := decidable_of_iff _ (retraction_sanitized.same_iff s)

/-- Sanitized settings are valid, and the valid settings are those that sanitizing leaves the same; a second time it
changes nothing at all. The offsets, the options and the mode have no bad values and are never touched. -/
theorem sanitizing_retracts (s : Settings) :
    s.sanitized.Valid ∧ (s.sanitized.same s = true ↔ s.Valid) ∧ s.sanitized.sanitized = s.sanitized
      ∧ s.sanitized.x = s.x ∧ s.sanitized.y = s.y ∧ s.sanitized.audio = s.audio
      ∧ s.sanitized.aspect = s.aspect ∧ s.sanitized.resolution = s.resolution
      ∧ s.sanitized.batch = s.batch := by
  refine ⟨valid_sanitized s, retraction_sanitized.same_iff s, sanitized_sanitized s, ?_⟩
  exact ⟨rfl, rfl, rfl, rfl, rfl, rfl⟩

/-- The settings that the editor opens with are valid. -/
example : initial.Valid := by decide +kernel

end Settings

end Watermark
