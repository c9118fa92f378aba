import Watermark.Proofs.Command.SingleCommand
import Watermark.Proofs.Settings.Valid
import Watermark.Settings.Issue

/-!
# A report without issues

Issues and repairs are two views of the same fields. A check reports nothing exactly if the value is one that
sanitizing leaves alone (`Issue.ofOpacity_eq_nil_iff` and the lemmas after it), except that an extension is looked at
without the blanks around it, and folders only for a batch. `Settings.tidied` makes up for these two. Sanitizing could
begin with it (`Settings.sanitized_tidied`), and what is tidied is valid if nothing was reported
(`Settings.valid_tidied`).

Sanitizing valid settings changes at most the sign of a zero time, which no command shows
(`Settings.Valid.template_sanitized`). So settings without issues compile to the same text as their sanitized form
(`Settings.compile_of_clean_report`).
-/

namespace Watermark

/-! ## Checks that report nothing -/

namespace Issue

variable {v : Binary64} {t : Text}

theorem when_eq_nil_iff {condition : Bool} {issue : Issue} : when condition issue = [] ↔ condition = false := by
  cases condition <;> simp [when]

theorem ofOpacity_eq_nil_iff : ofOpacity v = [] ↔ v.IsOpacity := by
  rw [ofOpacity, when_eq_nil_iff, Bool.not_eq_false', Bool.and_eq_true, Bool.and_eq_true]
  exact ⟨fun h => ⟨h.1.2, h.2⟩, fun h => ⟨⟨h.isFinite, h.1⟩, h.2⟩⟩

theorem ofControl_eq_nil_iff {c : Control} :
    ofControl c v = [] ↔ v.IsFactor ∧ c.least.le v = true ∧ v.le c.greatest = true := by
  have hfactor : v.IsFactor ↔ (v.isFinite && v.isPositive) = true := Bool.and_eq_true_iff.symm
  unfold ofControl
  rw [hfactor]
  cases v.isFinite && v.isPositive with
  | false => simp
  | true =>
    show when (!(c.least.le v && v.le c.greatest)) _ = [] ↔ _
    rw [when_eq_nil_iff, Bool.not_eq_false', Bool.and_eq_true]
    exact ⟨fun h => ⟨rfl, h⟩, fun h => h.2⟩

theorem ofTime_eq_nil_iff {m : Moment} : ofTime m v = [] ↔ v.IsTime := by
  rw [ofTime, when_eq_nil_iff, Bool.not_eq_false', Bool.and_eq_true]
  rfl

theorem ofFolder_eq_nil_iff {f : Folder} : ofFolder f t = [] ↔ Settings.IsFolder t := by
  rw [ofFolder, when_eq_nil_iff, Settings.isFolder_iff]

/-- The check looks at the text without the blanks around it. -/
theorem ofExtension_eq_nil_iff : ofExtension t = [] ↔ Extension.WellFormed t.trim := by
  unfold ofExtension
  generalize t.trim = e
  cases e with
  | nil => exact iff_of_false nofun fun h => h.ne_nil rfl
  | cons c e =>
    simp only [List.append_eq_nil_iff, when_eq_nil_iff, List.any_eq_false, Bool.not_eq_true', Bool.not_eq_false]
    constructor
    · rintro ⟨hdot, hall⟩
      refine ⟨List.cons_ne_nil c e, fun c hc => Extension.allowed_iff.1 (hall c hc), fun h => ?_⟩
      rw [Option.some.inj h] at hdot
      cases hdot
    · intro h
      refine ⟨Bool.eq_false_iff.2 fun hdot => h.head (congrArg some (eq_of_beq hdot)), fun c hc => ?_⟩
      exact Extension.allowed_iff.2 (h.chars c hc)

end Issue

namespace Settings

variable {s : Settings}

theorem issues_eq_nil_iff : s.issues = [] ↔
    s.opacity.IsOpacity
      ∧ (s.scale.IsFactor ∧ Control.scale.least.le s.scale = true ∧ s.scale.le Control.scale.greatest = true)
      ∧ (s.videoSpeed.IsFactor ∧ Control.videoSpeed.least.le s.videoSpeed = true
        ∧ s.videoSpeed.le Control.videoSpeed.greatest = true)
      ∧ s.startTime.IsTime ∧ s.endTime.IsTime ∧ Issue.ofWindow s.endTime s.startTime = []
      ∧ Extension.WellFormed s.extension.trim
      ∧ (s.batch = true → IsFolder s.inputFolder ∧ IsFolder s.outputFolder) := by
  have hfolders : (if s.batch then Issue.ofFolder .input s.inputFolder ++ Issue.ofFolder .output s.outputFolder
      else []) = [] ↔ (s.batch = true → IsFolder s.inputFolder ∧ IsFolder s.outputFolder) := by
    cases s.batch <;> simp [Issue.ofFolder_eq_nil_iff]
  simp only [issues, List.append_eq_nil_iff, Issue.ofOpacity_eq_nil_iff, Issue.ofControl_eq_nil_iff,
    Issue.ofTime_eq_nil_iff, Issue.ofExtension_eq_nil_iff, hfolders, and_assoc]

/-! ## Tidying -/

/-- The settings as far as texts can be repaired without changing what they mean: no blanks around the extension, and
the usual folder for one without a name. -/
def tidied (s : Settings) : Settings :=
  { s with
    inputFolder := folderOr defaultInputFolder s.inputFolder
    outputFolder := folderOr defaultOutputFolder s.outputFolder
    extension := s.extension.trim }

end Settings

theorem Extension.not_isBlank_of_allowed {c : Char} (h : allowed c = true) : Text.isBlank c = false := by
  rw [allowed_iff] at h
  rcases h with h | rfl | rfl | rfl
  · exact Text.not_isBlank_of_isAlphanum h
  · decide
  · decide
  · decide

/-- Blanks are filtered out anyway. -/
theorem Extension.normalize_trim (t : Text) : normalize t.trim = normalize t := by
  have hblank : ∀ c, Text.isBlank c = true → allowed c = false := fun c hc => by
    rw [Bool.eq_false_iff]
    intro h
    rw [not_isBlank_of_allowed h] at hc
    cases hc
  rw [normalize, normalize, Text.filter_trim hblank]

namespace Settings

variable {s : Settings}

theorem sanitized_tidied (s : Settings) : s.tidied.sanitized = s.sanitized := by
  simp only [sanitized, tidied, retraction_inputFolder.idempotent, retraction_outputFolder.idempotent,
    Extension.normalize_trim]

theorem valid_tidied (h : s.issues = []) : s.tidied.Valid := by
  obtain ⟨hopacity, ⟨hscale, -⟩, ⟨hspeed, -⟩, hstart, hend, -, hextension, -⟩ := issues_eq_nil_iff.1 h
  exact {
    opacity := hopacity
    scale := hscale
    startTime := hstart
    endTime := hend
    videoSpeed := hspeed
    inputFolder := retraction_inputFolder.ok_apply _
    outputFolder := retraction_outputFolder.ok_apply _
    extension := hextension }

/-- In a batch without issues the folders have names. -/
theorem tidied_of_batch (h : s.issues = []) (hbatch : s.batch = true) :
    s.tidied = { s with extension := s.extension.trim } := by
  obtain ⟨-, -, -, -, -, -, -, hfolders⟩ := issues_eq_nil_iff.1 h
  obtain ⟨hin, hout⟩ := hfolders hbatch
  have hin := eq_of_beq (retraction_inputFolder.same_of_ok _ hin)
  have hout := eq_of_beq (retraction_outputFolder.same_of_ok _ hout)
  rw [tidied, hin, hout]

/-! ## What valid settings compile to -/

theorem shown_orZero (x : Binary64) : x.orZero.shown = x.shown := by
  unfold Binary64.orZero
  split
  · rfl
  · rename_i h
    rw [Binary64.shown, Binary64.shown, Binary64.isPositive_zero, if_neg h]
    rfl

/-- The times of valid settings are kept, but for the sign of a zero. -/
theorem Valid.trimWindow_sanitized (h : s.Valid) : s.sanitized.trimWindow = s.trimWindow := by
  have hstart : s.sanitized.startTime = s.startTime.orZero := Binary64.finiteOrZero_eq h.startTime
  have hend : s.sanitized.endTime = s.endTime.orZero := Binary64.finiteOrZero_eq h.endTime
  have hsame : ∀ {x : Binary64}, x.IsTime → x.same x.orZero = true := fun hx => by
    rw [Binary64.same_comm]
    exact Binary64.same_orZero hx.2
  have hduration : s.sanitized.effectiveDuration = s.effectiveDuration := by
    rw [effectiveDuration, effectiveDuration, hstart, hend]
    exact (Binary64.orZero_sub_congr h.endTime.1 h.startTime.1 (hsame h.endTime) (hsame h.startTime)).symm
  show TrimWindow.mk s.sanitized.startTime.shown s.sanitized.effectiveDuration.shown = s.trimWindow
  rw [hstart, shown_orZero, hduration]
  rfl

/-- Nothing else of valid settings that a command shows is changed. -/
theorem Valid.template_sanitized (h : s.Valid) (image : Text) : s.sanitized.template image = s.template image := by
  have hopacity : s.sanitized.opacity = s.opacity := h.opacity.asOpacity
  have hscale : s.sanitized.scale = s.scale := h.scale.positiveOrOne
  have hspeed : s.sanitized.videoSpeed = s.videoSpeed := h.videoSpeed.positiveOrOne
  have hchanges : s.sanitized.changesSpeed = s.changesSpeed := by rw [changesSpeed, changesSpeed, hspeed]
  have hchain : s.sanitized.chain = s.chain := by
    rw [chain, chain, retiming?, retiming?, hopacity, hscale, hspeed, hchanges]
    rfl
  have hsound : s.sanitized.soundtrack = s.soundtrack := by
    rw [soundtrack, soundtrack, hspeed, hchanges]
    rfl
  rw [template, template, Template.assemble, Template.assemble, h.trimWindow_sanitized, hchain, hsound]

theorem compile_of_batch (h : s.batch = true) (m : Media) (d : Dialect) :
    s.compile m d = d.script (s.template m.imageName) s := by
  have htarget : s.target d = .batchScript d := by
    rw [target, Target.ofSettings, h]
    rfl
  rw [compile, htarget]

theorem Valid.layout_sanitized (h : s.Valid) (d : Dialect) :
    Layout.ofSettings d s.sanitized = Layout.ofSettings d s := by
  have hin : s.sanitized.inputFolder = s.inputFolder :=
    eq_of_beq (retraction_inputFolder.same_of_ok _ h.inputFolder)
  have hout : s.sanitized.outputFolder = s.outputFolder :=
    eq_of_beq (retraction_outputFolder.same_of_ok _ h.outputFolder)
  have hext : s.sanitized.extension = s.extension := h.extension.normalize
  rw [Layout.ofSettings, Layout.ofSettings, hin, hout, hext]

/-- Sanitizing valid settings does not change what they compile to. -/
theorem Valid.compile_sanitized (h : s.Valid) (m : Media) (d : Dialect) :
    s.sanitized.compile m d = s.compile m d := by
  have hmode : s.sanitized.batch = s.batch := rfl
  by_cases hbatch : s.batch = true
  · rw [compile_of_batch hbatch, compile_of_batch (hmode.trans hbatch), h.template_sanitized, Dialect.script,
      Dialect.script, h.layout_sanitized]
  · have hsingle := Bool.eq_false_iff.2 hbatch
    rw [compile_of_single hsingle, compile_of_single (hmode.trans hsingle), h.template_sanitized]

/-- The command for one file shows neither a folder nor the extension. -/
theorem compile_tidied_of_single (h : s.batch = false) (m : Media) (d : Dialect) :
    s.tidied.compile m d = s.compile m d := by
  have hmode : s.tidied.batch = false := h
  rw [compile_of_single h, compile_of_single hmode]
  rfl

/-- Where nothing is reported, sanitizing keeps every number, and what is compiled is the same without it. A batch
needs the blanks around its extension removed; that is all that is left of sanitizing there. -/
theorem compile_of_clean_report (s : Settings) (h : s.issues = []) :
    (s.sanitized.opacity.same s.opacity = true ∧ s.sanitized.x = s.x ∧ s.sanitized.y = s.y
        ∧ s.sanitized.scale.same s.scale = true ∧ s.sanitized.startTime.same s.startTime = true
        ∧ s.sanitized.endTime.same s.endTime = true ∧ s.sanitized.videoSpeed.same s.videoSpeed = true)
      ∧ (s.batch = false → ∀ m d, s.sanitized.compile m d = s.compile m d)
      ∧ (s.batch = true → ∀ m d,
          s.sanitized.compile m d = { s with extension := s.extension.trim }.compile m d) := by
  have hvalid := valid_tidied h
  have hcompile : ∀ m d, s.sanitized.compile m d = s.tidied.compile m d := fun m d => by
    rw [← sanitized_tidied, hvalid.compile_sanitized]
  refine ⟨?_, fun hsingle m d => ?_, fun hbatch m d => ?_⟩
  · have hsame := hvalid.same_sanitized
    rw [sanitized_tidied] at hsame
    obtain ⟨hopacity, -, -, hscale, hstart, hend, hspeed, -⟩ := same_iff.1 hsame
    exact ⟨hopacity, rfl, rfl, hscale, hstart, hend, hspeed⟩
  · rw [hcompile, compile_tidied_of_single hsingle]
  · rw [hcompile, tidied_of_batch h hbatch]

/-- Blanks around the extension and a negative zero are not reported. -/
theorem compile_of_padded_extension :
    let s := { initial with batch := true, startTime := .finite true .zero, extension := " mov\n".toList }
    s.issues = [] ∧ s.batch = true
      ∧ s.sanitized.compile ⟨none, none⟩ .posix
        = { s with extension := "mov".toList }.compile ⟨none, none⟩ .posix := by
  intro s
  have hissues : s.issues = [] := by decide +kernel
  exact ⟨hissues, rfl, (compile_of_clean_report s hissues).2.2 rfl _ _⟩

end Settings

end Watermark
