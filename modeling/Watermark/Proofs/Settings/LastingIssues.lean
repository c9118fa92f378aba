import Watermark.Proofs.Settings.CleanReport

/-!
# Issues that sanitizing leaves

Sanitizing repairs what no command can express and keeps what is only unusual. So it takes issues out of a report and
leaves the others, in their words and in their order. Which ones these are can be told from the issue
(`Issue.lasts`): a finite factor outside the range of its control, and a finite end that is not after a finite start.

Each check is compared before and after the repair of its field. Most of them report nothing afterwards. A factor is
either kept or becomes 1, which every control offers (`Issue.ofControl_positiveOrOne`). The check of the window looks
at two fields, and a repair of one of them could make it report what it did not report before. But then the repaired
end is above 0 and the repaired start not below it, so both times were kept (`Issue.ofWindow_finiteOrZero`).

* `Settings.issues_sanitized`: the report after sanitizing is the part of the report before that lasts.
-/

namespace Watermark

namespace Binary64

variable {x y : Binary64}

theorem isPositive_of_le (hx : x.isPositive = true) (h : x.le y = true) : y.isPositive = true := by
  obtain ⟨z, p, hz, hp, hlt⟩ := lt_iff.1 hx
  obtain ⟨p', q, hp', hq, hle⟩ := le_iff.1 h
  cases hp.symm.trans hp'
  exact lt_iff.2 ⟨z, q, hz, hq, Int.lt_of_lt_of_le hlt hle⟩

theorem IsFactor.finiteOrZero (h : x.IsFactor) : x.finiteOrZero = x := by
  rw [Binary64.finiteOrZero, if_pos h.1, orZero, if_pos h.2]

theorem finiteOrZero_of_not_isFactor (h : ¬ x.IsFactor) : x.finiteOrZero = zero := by
  unfold Binary64.finiteOrZero
  split
  · rename_i hfinite
    rw [orZero, if_neg fun hpositive => h ⟨hfinite, hpositive⟩]
  · rfl

theorem positiveOrOne_of_not_isFactor (h : ¬ x.IsFactor) : x.positiveOrOne = one := by
  rw [positiveOrOne, if_neg]
  rwa [Bool.and_eq_true]

/-- What is above 0 after the repair was so before. -/
theorem isFactor_of_isPositive_finiteOrZero (h : x.finiteOrZero.isPositive = true) : x.IsFactor := by
  refine Decidable.byContradiction fun hfactor => ?_
  rw [finiteOrZero_of_not_isFactor hfactor, isPositive_zero] at h
  cases h

end Binary64

namespace Issue

/-- Whether sanitizing leaves the issue. -/
def lasts : Issue → Bool
  | outsideEditorRange .. => true
  | endNotAfterStart endTime startTime => endTime.isFinite && startTime.isFinite
  | _ => false

theorem filter_when (condition : Bool) (issue : Issue) :
    (when condition issue).filter lasts = when (condition && issue.lasts) issue := by
  cases condition <;> cases h : issue.lasts <;> simp [when, h]

theorem filter_when_of_not_lasts {condition : Bool} {issue : Issue} (h : issue.lasts = false) :
    (when condition issue).filter lasts = [] := by
  rw [filter_when, h, Bool.and_false]
  rfl

/-! ## One check after its repair -/

variable {v : Binary64}

theorem ofOpacity_asOpacity (v : Binary64) : ofOpacity v.asOpacity = (ofOpacity v).filter lasts := by
  rw [ofOpacity_eq_nil_iff.2 v.isOpacity_asOpacity, ofOpacity, filter_when_of_not_lasts rfl]

theorem ofControl_one (c : Control) : ofControl c .one = [] := by
  rw [ofControl_eq_nil_iff]
  cases c <;> exact ⟨Binary64.isFactor_one, by decide +kernel⟩

theorem ofControl_of_isFactor {c : Control} (h : v.IsFactor) :
    ofControl c v = when (!(c.least.le v && v.le c.greatest)) (outsideEditorRange c v) := by
  rw [ofControl, h.1, h.2]
  rfl

theorem ofControl_of_not_isFactor {c : Control} (h : ¬ v.IsFactor) : ofControl c v = [notPositive c v] := by
  have hcondition : (v.isFinite && v.isPositive) = false := by
    rwa [← Bool.not_eq_true, Bool.and_eq_true]
  rw [ofControl, hcondition]
  rfl

theorem ofControl_positiveOrOne (c : Control) (v : Binary64) :
    ofControl c v.positiveOrOne = (ofControl c v).filter lasts := by
  by_cases h : v.IsFactor
  · rw [h.positiveOrOne, ofControl_of_isFactor h, filter_when, lasts, Bool.and_true]
  · rw [Binary64.positiveOrOne_of_not_isFactor h, ofControl_one, ofControl_of_not_isFactor h]
    rfl

theorem ofTime_finiteOrZero (m : Moment) (v : Binary64) : ofTime m v.finiteOrZero = (ofTime m v).filter lasts := by
  rw [ofTime_eq_nil_iff.2 v.isTime_finiteOrZero, ofTime, filter_when_of_not_lasts rfl]

theorem ofWindow_finiteOrZero (endTime startTime : Binary64) :
    ofWindow endTime.finiteOrZero startTime.finiteOrZero = (ofWindow endTime startTime).filter lasts := by
  rw [ofWindow, ofWindow, filter_when, lasts]
  by_cases h : endTime.IsFactor ∧ startTime.IsFactor
  · rw [h.1.finiteOrZero, h.2.finiteOrZero, h.1.1, h.2.1, Bool.and_true, Bool.and_true]
  · -- an issue on either side takes two finite times above 0
    have hbefore :
        (endTime.isPositive && endTime.le startTime && (endTime.isFinite && startTime.isFinite)) = false := by
      rw [Bool.eq_false_iff]
      intro hissue
      simp only [Bool.and_eq_true] at hissue
      obtain ⟨⟨hpositive, hle⟩, hend, hstart⟩ := hissue
      exact h ⟨⟨hend, hpositive⟩, hstart, Binary64.isPositive_of_le hpositive hle⟩
    have hafter : (endTime.finiteOrZero.isPositive && endTime.finiteOrZero.le startTime.finiteOrZero) = false := by
      rw [Bool.eq_false_iff]
      intro hissue
      rw [Bool.and_eq_true] at hissue
      have hstart := Binary64.isPositive_of_le hissue.1 hissue.2
      exact h ⟨Binary64.isFactor_of_isPositive_finiteOrZero hissue.1,
        Binary64.isFactor_of_isPositive_finiteOrZero hstart⟩
    rw [hbefore, hafter]
    rfl

theorem ofExtension_normalize (t : Text) : ofExtension (Extension.normalize t) = (ofExtension t).filter lasts := by
  have hblank : ∀ c ∈ Extension.normalize t, Text.isBlank c = false := fun c hc =>
    Extension.not_isBlank_of_allowed (Extension.all_normalize t c hc)
  have hclean : ofExtension (Extension.normalize t) = [] := by
    rw [ofExtension_eq_nil_iff, Text.trim_eq_self hblank]
    exact Extension.wellFormed_normalize t
  rw [hclean, ofExtension]
  cases t.trim with
  | nil => rfl
  | cons c _ =>
    rw [List.filter_append, filter_when_of_not_lasts rfl, filter_when_of_not_lasts rfl]
    rfl

theorem ofFolder_folderOr {fallback : Text} (hfallback : fallback.allBlank = false) (f : Folder) (t : Text) :
    ofFolder f (Settings.folderOr fallback t) = (ofFolder f t).filter lasts := by
  have hfolder := (Settings.retraction_folderOr hfallback).ok_apply t
  rw [ofFolder_eq_nil_iff.2 hfolder, ofFolder, filter_when_of_not_lasts rfl]

end Issue

/-! ## The values that issues show -/

def Control.value (s : Settings) : Control → Binary64
  | .scale => s.scale
  | .videoSpeed => s.videoSpeed

def Moment.value (s : Settings) : Moment → Binary64
  | .startTime => s.startTime
  | .endTime => s.endTime

namespace Issue

/-- The issue shows what the settings hold. -/
def ShowsValues (s : Settings) : Issue → Prop
  | opacityOutside v => v = s.opacity
  | notPositive c v => v = c.value s
  | outsideEditorRange c v => v = c.value s
  | negativeTime m v => v = m.value s
  | endNotAfterStart e t => e = s.endTime ∧ t = s.startTime
  | extensionEmpty => True
  | extensionLeadingDot e => e = s.extension
  | extensionCharacters e => e = s.extension
  | folderEmpty _ => True

theorem forall_mem_when {P : Issue → Prop} {condition : Bool} {issue : Issue} (h : P issue) :
    ∀ i ∈ when condition issue, P i := by
  cases condition with
  | false => exact List.forall_mem_nil P
  | true => exact List.forall_mem_singleton.2 h

theorem showsValues_ofControl (s : Settings) (c : Control) : ∀ i ∈ ofControl c (c.value s), i.ShowsValues s := by
  unfold ofControl
  split
  · exact List.forall_mem_singleton.2 rfl
  · exact forall_mem_when rfl

theorem showsValues_ofExtension (s : Settings) : ∀ i ∈ ofExtension s.extension, i.ShowsValues s := by
  rw [ofExtension, List.forall_mem_append]
  refine ⟨?_, forall_mem_when rfl⟩
  split
  · exact List.forall_mem_singleton.2 trivial
  · exact forall_mem_when rfl

theorem showsValues_of_mem {s : Settings} : ∀ i ∈ s.issues, i.ShowsValues s := by
  have hfolders : ∀ i ∈ if s.batch then ofFolder .input s.inputFolder ++ ofFolder .output s.outputFolder else [],
      i.ShowsValues s := by
    split
    · exact List.forall_mem_append.2 ⟨forall_mem_when trivial, forall_mem_when trivial⟩
    · exact List.forall_mem_nil _
  simp only [Settings.issues, List.forall_mem_append]
  exact ⟨⟨⟨⟨⟨⟨⟨forall_mem_when rfl, showsValues_ofControl s .scale⟩, showsValues_ofControl s .videoSpeed⟩,
    forall_mem_when rfl⟩, forall_mem_when rfl⟩, forall_mem_when ⟨rfl, rfl⟩⟩, showsValues_ofExtension s⟩, hfolders⟩

end Issue

/-! ## The report -/

namespace Settings

/-- Sanitizing takes out of a report just the issues that do not last. -/
theorem issues_sanitized (s : Settings) : s.sanitized.issues = s.issues.filter Issue.lasts := by
  have hfolders : (if s.batch then Issue.ofFolder .input s.sanitized.inputFolder
        ++ Issue.ofFolder .output s.sanitized.outputFolder else [])
      = (if s.batch then Issue.ofFolder .input s.inputFolder ++ Issue.ofFolder .output s.outputFolder
        else []).filter Issue.lasts := by
    have hin := Issue.ofFolder_folderOr (show defaultInputFolder.allBlank = false by decide) .input s.inputFolder
    have hout := Issue.ofFolder_folderOr (show defaultOutputFolder.allBlank = false by decide) .output s.outputFolder
    split
    · rw [List.filter_append, ← hin, ← hout]
      rfl
    · rfl
  rw [issues, issues]
  simp only [List.filter_append, ← Issue.ofOpacity_asOpacity, ← Issue.ofControl_positiveOrOne,
    ← Issue.ofTime_finiteOrZero, ← Issue.ofWindow_finiteOrZero, ← Issue.ofExtension_normalize]
  rw [← hfolders]
  rfl

/-- After sanitizing, a report is a part of the report before, in the same words and order. What is left of it says
that a factor is outside the range of its control or that the end is not after the start, of the numbers as they were
before. -/
theorem sanitizing_only_removes_issues (s : Settings) :
    (s.sanitized.issues.map Issue.message).Sublist (s.issues.map Issue.message)
      ∧ s.sanitized.issues.Sublist s.issues
      ∧ ∀ i ∈ s.sanitized.issues,
        i = .outsideEditorRange .scale s.scale ∨ i = .outsideEditorRange .videoSpeed s.videoSpeed
          ∨ i = .endNotAfterStart s.endTime s.startTime := by
  have hsublist : s.sanitized.issues.Sublist s.issues := by
    rw [issues_sanitized]
    exact List.filter_sublist
  refine ⟨hsublist.map Issue.message, hsublist, fun i hi => ?_⟩
  rw [issues_sanitized, List.mem_filter] at hi
  obtain ⟨hmem, hlasts⟩ := hi
  have hshows := Issue.showsValues_of_mem i hmem
  cases i with
  | outsideEditorRange c v =>
    have hv : v = c.value s := hshows
    rw [hv]
    cases c with
    | scale => exact .inl rfl
    | videoSpeed => exact .inr (.inl rfl)
  | endNotAfterStart e t =>
    obtain ⟨he, ht⟩ : e = s.endTime ∧ t = s.startTime := hshows
    rw [he, ht]
    exact .inr (.inr rfl)
  | _ => cases hlasts

end Settings

end Watermark
