import Watermark.Compile
import Watermark.Proofs.Command.Arguments
import Watermark.Proofs.Filter.Expression
import Watermark.Proofs.Settings.Sanitized

/-!
# One command, one edit

The command for a single file shows everything that makes the edit, and nothing else (`compile_eq_iff`). The two
names and the image stand in it as they are, but what is before and behind them holds no quote of its own that they
could move: the part of the source is read up to the first quote, and the rest from the end. There the words of the
times (`Settings.timing_eq_iff`), the pipeline and the audio (`Settings.picture_eq_iff`) are read apart.
-/

namespace Watermark

namespace Binary64

/-- A number that is only mentioned above zero. -/
def shown (x : Binary64) : Option Binary64 := if x.isPositive then some x else none

theorem shown_eq_iff {x y : Binary64} (hx : x.isPositive = true ∨ x = zero)
    (hy : y.isPositive = true ∨ y = zero) :
    x.shown.map numeral = y.shown.map numeral ↔ x.same y = true := by
  unfold shown
  rcases hx with hx | rfl
  · rcases hy with hy | rfl
    · rw [if_pos hx, if_pos hy, ← numeral_eq_iff (ne_nan_of_isPositive hx)]
      exact Option.some_inj
    · rw [if_pos hx, isPositive_zero]
      refine iff_of_false nofun fun h => ?_
      rw [isPositive_congr h, isPositive_zero] at hx
      cases hx
  · rcases hy with hy | rfl
    · rw [if_pos hy, isPositive_zero]
      refine iff_of_false nofun fun h => ?_
      rw [← isPositive_congr h, isPositive_zero] at hy
      cases hy
    · exact iff_of_true rfl (same_self nofun)

end Binary64

/-! ## Words and quotes -/

namespace Argument

theorem splitOn_append_line {as : List Argument} (h : ∀ a ∈ as, ' ' ∉ a.render id [] []) {x : Text}
    (hx : ' ' ∉ x) : (x ++ line as).splitOn ' ' = x :: as.map fun a => a.render id [] [] := by
  induction as generalizing x with
  | nil =>
    rw [line, List.flatMap_nil, List.append_nil]
    exact List.splitOn_eq_singleton hx
  | cons a as ih =>
    have hline : line (a :: as) = ' ' :: (a.render id [] [] ++ line as) := rfl
    rw [hline, List.splitOn_append_cons_self_of_not_mem hx,
      ih (fun b hb => h b (List.mem_cons_of_mem _ hb)) (h a List.mem_cons_self)]
    rfl

/-- A flag with a numeral, where there is one. -/
def flagged (flag : Text) : Option Text → List Text
  | some n => [flag, n]
  | none => []

theorem render_timed (flag : Text) (t : Option Binary64) :
    (timed flag t).map (fun a => a.render id [] []) = flagged flag (t.map Binary64.numeral) := by
  cases t with
  | none => rfl
  | some t => rfl

theorem blank_not_mem_timed {flag : Text} (hflag : ' ' ∉ flag) (t : Option Binary64) :
    ∀ a ∈ timed flag t, ' ' ∉ a.render id [] [] := by
  have hword : ∀ x : Binary64, ' ' ∉ x.numeral := fun x => x.word_numeral.not_mem (by decide)
  cases t with
  | none => exact List.forall_mem_nil _
  | some t =>
    simp only [timed, List.forall_mem_cons]
    exact ⟨hflag, hword t, List.forall_mem_nil _⟩

end Argument

namespace Settings

variable {s t : Settings}

/-- The words of the times. -/
theorem splitOn_timing (s : Settings) :
    (Argument.line s.timing).splitOn ' '
      = [] :: (Argument.flagged "-ss".toList (s.startTime.shown.map Binary64.numeral)
        ++ Argument.flagged "-t".toList (s.effectiveDuration.shown.map Binary64.numeral)) := by
  have hblank : ∀ a ∈ s.timing, ' ' ∉ a.render id [] [] := by
    rw [timing, List.forall_mem_append]
    exact ⟨Argument.blank_not_mem_timed (by decide) _, Argument.blank_not_mem_timed (by decide) _⟩
  have hsplit := Argument.splitOn_append_line hblank (x := []) List.not_mem_nil
  rw [List.nil_append] at hsplit
  rw [hsplit, timing, List.map_append, Argument.render_timed, Argument.render_timed]
  rfl

theorem flagged_append_inj {m m' n n' : Option Text}
    (h : Argument.flagged "-ss".toList m ++ Argument.flagged "-t".toList n
      = Argument.flagged "-ss".toList m' ++ Argument.flagged "-t".toList n') : m = m' ∧ n = n' := by
  cases m <;> cases m' <;> cases n <;> cases n' <;> simp_all [Argument.flagged]

theorem timing_eq_iff (hs : s.startTime.isPositive = true ∨ s.startTime = .zero)
    (ht : t.startTime.isPositive = true ∨ t.startTime = .zero) :
    Argument.line s.timing = Argument.line t.timing
      ↔ s.startTime.same t.startTime = true ∧ s.effectiveDuration.same t.effectiveDuration = true := by
  have hduration : ∀ s : Settings, s.effectiveDuration.isPositive = true ∨ s.effectiveDuration = .zero :=
    fun s => Binary64.orZero_positive _
  rw [← Binary64.shown_eq_iff hs ht, ← Binary64.shown_eq_iff (hduration s) (hduration t)]
  constructor
  · intro h
    have hsplit := s.splitOn_timing
    rw [h, splitOn_timing] at hsplit
    obtain ⟨hstart, hlength⟩ := flagged_append_inj (List.cons.inj hsplit).2
    exact ⟨hstart.symm, hlength.symm⟩
  · rintro ⟨hstart, hlength⟩
    have hread : ∀ s : Settings,
        List.intercalate [' '] ((Argument.line s.timing).splitOn ' ') = Argument.line s.timing :=
      fun s => List.intercalate_splitOn ' '
    rw [← hread s, ← hread t, splitOn_timing, splitOn_timing, hstart, hlength]

theorem line_picture (s : Settings) :
    Argument.line s.picture
      = " -filter_complex ".toList ++ '"' :: (s.chain.pipeline ++ '"' :: (" -map ".toList
        ++ '"' :: (s.chain.active.label ++ '"' :: Argument.line (Argument.soundtrack s.soundtrack)))) := by
  rw [picture, Argument.line_append]
  simp [Argument.line, Argument.render, Segment.render]

theorem picture_eq_iff :
    Argument.line s.picture = Argument.line t.picture
      ↔ s.expressions = t.expressions
        ∧ Argument.line (Argument.soundtrack s.soundtrack) = Argument.line (Argument.soundtrack t.soundtrack) := by
  have hpipeline : ∀ c : Chain, '"' ∉ c.pipeline := fun c => c.inert_pipeline.not_mem (by decide)
  have hlabel : ∀ r : Stream, '"' ∉ r.label := fun r => r.inert_label.not_mem (by decide)
  rw [line_picture, line_picture, ← pipeline_eq_iff]
  constructor
  · intro h
    have hbehind := (List.cons.inj (List.append_cancel_left h)).2
    obtain ⟨hpipe, hmap⟩ := Text.append_cons_inj (hpipeline _) (hpipeline _) hbehind
    have hbehind := (List.cons.inj (List.append_cancel_left hmap)).2
    exact ⟨hpipe, (Text.append_cons_inj (hlabel _) (hlabel _) hbehind).2⟩
  · rintro ⟨hpipe, hsound⟩
    rw [hpipe, hsound, active_eq_of_expressions_eq ((pipeline_eq_iff s t).1 hpipe)]

theorem soundtrack_eq_iff (hspeed : s.videoSpeed.same t.videoSpeed = true) :
    Argument.line (Argument.soundtrack s.soundtrack) = Argument.line (Argument.soundtrack t.soundtrack)
      ↔ (s.changesSpeed = true → s.audio = t.audio) := by
  have hne : ∀ v : Binary64,
      Argument.line (Argument.soundtrack .copied) ≠ Argument.line (Argument.soundtrack (.tempo v)) := fun v h => by
    have hletter : some 'm' = some 'f' := congrArg (fun t : Text => t[2]?) h
    exact absurd hletter (by decide)
  have hchanges : s.changesSpeed = t.changesSpeed := by
    rw [changesSpeed, changesSpeed, Binary64.same_congr hspeed]
  unfold soundtrack
  rw [← hchanges]
  cases s.changesSpeed with
  | false => exact iff_of_true rfl nofun
  | true =>
    cases s.audio <;> cases t.audio
    · exact iff_of_true rfl fun _ => rfl
    · exact iff_of_false (hne _) fun h => absurd (h rfl) (by decide)
    · exact iff_of_false (hne _).symm fun h => absurd (h rfl) (by decide)
    · refine iff_of_true ?_ fun _ => rfl
      have hnumeral := Binary64.numeral_congr hspeed
      show Argument.line (Argument.soundtrack (.tempo s.videoSpeed))
        = Argument.line (Argument.soundtrack (.tempo t.videoSpeed))
      rw [Argument.soundtrack, Argument.soundtrack, hnumeral]

/-! ## The command -/

/-- The command for two files shows the times and the picture, whatever the names hold. -/
theorem substitute_eq_iff (image input output : Text) :
    (s.template image).substitute input output = (t.template image).substitute input output
      ↔ Argument.line s.timing = Argument.line t.timing ∧ Argument.line s.picture = Argument.line t.picture := by
  have hfront : ∀ s : Settings, '"' ∉ "ffmpeg".toList ++ Argument.line s.timing ++ " -i ".toList := fun s h => by
    rw [List.mem_append, List.mem_append] at h
    rcases h with (h | h) | h
    · exact absurd h (by decide)
    · rcases mem_line_timing h with h | h
      · exact absurd h (by decide)
      · exact absurd h (by decide)
    · exact absurd h (by decide)
  rw [substitute_template_eq, substitute_template_eq]
  constructor
  · intro h
    obtain ⟨htiming, hrest⟩ := Text.append_cons_inj (hfront s) (hfront t) h
    have htiming := List.append_cancel_left (List.append_cancel_right htiming)
    -- the names and the image are the same on both sides
    have hrest := (List.cons.inj (List.append_cancel_left hrest)).2
    have hrest := (List.cons.inj (List.append_cancel_left hrest)).2
    have hrest := (List.cons.inj (List.append_cancel_left hrest)).2
    exact ⟨htiming, List.append_cancel_right (List.append_cancel_right hrest)⟩
  · rintro ⟨htiming, hpicture⟩
    rw [htiming, hpicture]

/-- The same edit of a single file, the numbers compared as numbers. How audio is treated matters only at another
speed. -/
structure SameEdit (s t : Settings) : Prop where
  opacity : s.opacity.same t.opacity = true
  x : s.x = t.x
  y : s.y = t.y
  scale : s.scale.same t.scale = true
  startTime : s.startTime.same t.startTime = true
  effectiveDuration : s.effectiveDuration.same t.effectiveDuration = true
  videoSpeed : s.videoSpeed.same t.videoSpeed = true
  aspect : s.aspect = t.aspect
  resolution : s.resolution = t.resolution
  audio : s.changesSpeed = true → s.audio = t.audio

theorem compile_of_single (h : s.batch = false) (m : Media) (d : Dialect) :
    s.compile m d = (s.template m.imageName).substitute m.videoName Media.outputName := by
  have htarget : s.target d = .singleCommand := by
    rw [target, Target.ofSettings, h]
    rfl
  rw [compile, htarget]

/-- The folders and the extension are no part of the edit of a single file. -/
theorem sameEdit_folders (s : Settings) (inputFolder outputFolder extension : Text) :
    s.sanitized.SameEdit
      { s with inputFolder := inputFolder, outputFolder := outputFolder, extension := extension }.sanitized := by
  have htime : ∀ x : Binary64, x.isPositive = true ∨ x = .zero → x.same x = true := fun x hx => by
    rcases hx with hx | rfl
    · exact Binary64.same_self (Binary64.ne_nan_of_isPositive hx)
    · exact Binary64.same_self nofun
  exact {
    opacity := Binary64.same_self (Binary64.asOpacity_ne_nan _)
    x := rfl
    y := rfl
    scale := Binary64.same_self (Binary64.positiveOrOne_ne_nan _)
    startTime := htime _ (Binary64.finiteOrZero_positive _)
    effectiveDuration := htime _ (Binary64.orZero_positive _)
    videoSpeed := Binary64.same_self (Binary64.positiveOrOne_ne_nan _)
    aspect := rfl
    resolution := rfl
    audio := fun _ => rfl }

/-- Two sanitized edits of a single file compile to one command exactly if they are the same edit. Neither the
dialect nor a folder matters. -/
theorem compile_eq_iff (a b : Settings) (m : Media) (d e : Dialect) (ha : a.batch = false) (hb : b.batch = false) :
    a.sanitized.compile m d = b.sanitized.compile m e ↔ a.sanitized.SameEdit b.sanitized := by
  have hstart : ∀ s : Settings, s.sanitized.startTime.isPositive = true ∨ s.sanitized.startTime = .zero :=
    fun s => Binary64.finiteOrZero_positive _
  have ha : a.sanitized.batch = false := ha
  have hb : b.sanitized.batch = false := hb
  rw [compile_of_single ha, compile_of_single hb, substitute_eq_iff, timing_eq_iff (hstart a) (hstart b),
    picture_eq_iff, expressions_eq_iff (Binary64.asOpacity_ne_nan _) (Binary64.positiveOrOne_ne_nan _)
      (Binary64.positiveOrOne_ne_nan _)]
  constructor
  · rintro ⟨⟨hstart, hduration⟩, ⟨⟨hopacity, hscale⟩, ⟨hx, hy⟩, hspeed, haspect, hresolution⟩, hsound⟩
    exact ⟨hopacity, hx, hy, hscale, hstart, hduration, hspeed, haspect, hresolution,
      (soundtrack_eq_iff hspeed).1 hsound⟩
  · intro h
    exact ⟨⟨h.startTime, h.effectiveDuration⟩, ⟨⟨h.opacity, h.scale⟩, ⟨h.x, h.y⟩, h.videoSpeed, h.aspect,
      h.resolution⟩, (soundtrack_eq_iff h.videoSpeed).2 h.audio⟩

/-- Other folders, another extension and the other dialect. -/
theorem compile_eq_of_folders :
    let other := { Settings.initial with
      inputFolder := "videos".toList, outputFolder := "out".toList, extension := "mov".toList }
    Settings.initial.batch = false ∧ other.batch = false
      ∧ Settings.initial.sanitized.compile ⟨none, none⟩ .windows = other.sanitized.compile ⟨none, none⟩ .posix :=
  ⟨rfl, rfl, (compile_eq_iff _ _ _ _ _ rfl rfl).2 (sameEdit_folders _ _ _ _)⟩

end Settings

end Watermark
