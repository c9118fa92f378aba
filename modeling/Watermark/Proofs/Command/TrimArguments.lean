import Watermark.Proofs.Command.Slots
import Watermark.Proofs.Number.Bounds
import Watermark.Proofs.Settings.LastingIssues

/-!
# The part of the source that is kept

Three places ask whether the end is after the start: the length of the kept part, the command and the report. They ask
in different words, and all three answers follow the order of the two times, for infinities and not-a-number too:

* `Settings.trimWindow_eq`: there is a length exactly if the start is before the end, since a difference is above 0
  exactly then, and it never is not-a-number or below 0;
* `Template.hasFlag_iff`: the command has the two flags exactly if there are the two numbers;
* `Settings.reports_readToEnd_iff`: among the messages of a report, just the one about the window ends in saying that
  the source is read to its end.
-/

namespace Watermark

namespace Settings

/-! ## The window -/

variable (s : Settings)

theorem isPositive_effectiveDuration : s.effectiveDuration.isPositive = s.startTime.lt s.endTime := by
  rw [effectiveDuration, Binary64.isPositive_orZero, Binary64.isPositive_sub]

theorem trimWindow_eq : s.trimWindow =
    { seek := if Binary64.zero.lt s.startTime then some s.startTime else none
      length := if s.startTime.lt s.endTime then some s.effectiveDuration else none } := by
  rw [trimWindow, isPositive_effectiveDuration]
  rfl

/-- What the window holds is above 0. -/
theorem isPositive_of_mem_trimWindow {d : Binary64} :
    (d ∈ s.trimWindow.length → d.isPositive = true) ∧ (d ∈ s.trimWindow.seek → d.isPositive = true) := by
  rw [trimWindow, Option.mem_ite_none_right, Option.mem_ite_none_right, Option.mem_some_iff, Option.mem_some_iff]
  exact ⟨fun h => h.2 ▸ h.1, fun h => h.2 ▸ h.1⟩

theorem Valid.isFinite_effectiveDuration {s : Settings} (h : s.Valid) : s.effectiveDuration.isFinite = true :=
  Binary64.isFinite_orZero_sub h.endTime.1 h.startTime.1 h.startTime.2

end Settings

/-! ## The flags of the command -/

namespace Template

/-- The command has the flag as a word of its own. -/
def HasFlag (t : Template) (flag : Text) : Prop := .fixed (' ' :: flag) ∈ t.segments

variable (s : Settings) (c : Chain) (image : Text)

theorem timed_ite (flag : Text) (condition : Bool) (t : Binary64) :
    timed flag (if condition then some t else none) = if condition then word flag ++ bare t.numeral else [] := by
  cases condition with
  | false => rfl
  | true => rfl

/-- The two flags for the times are words of the command exactly where the window has the numbers for them. -/
theorem hasFlag_iff :
    ((assemble s c image).HasFlag "-ss".toList ↔ s.trimWindow.seek.isSome = true)
      ∧ ((assemble s c image).HasFlag "-t".toList ↔ s.trimWindow.length.isSome = true) := by
  rw [HasFlag, HasFlag, segments_assemble, opening, middle]
  cases s.trimWindow.seek <;> cases s.trimWindow.length <;> cases s.soundtrack <;>
    simp [timed, soundtrack, word, bare, quoted]

end Template

/-! ## The message about the window -/

namespace Issue

/-- The last words of the message about the window. -/
def readToEnd : Text := "the source will be read to its end".toList

def isAboutWindow : Issue → Bool
  | endNotAfterStart .. => true
  | _ => false

theorem not_readToEnd_suffix (t : Text) {w : Text} (hw : w.getLast?.any (· != 'd') = true) :
    ¬ readToEnd <:+ t ++ w := by
  rintro ⟨a, ha⟩
  obtain ⟨c, hc, hne⟩ := (Option.any_eq_true _ _).1 hw
  have hlast := congrArg List.getLast? ha
  rw [List.getLast?_append, List.getLast?_append, hc] at hlast
  have hd : some 'd' = some c := hlast
  rw [← Option.some.inj hd] at hne
  cases hne

theorem last_greatest (c : Control) : c.greatest.plain.getLast?.any (· != 'd') = true := by
  cases c <;> decide +kernel

/-- No other message ends in the same character. -/
theorem readToEnd_suffix_iff (i : Issue) : readToEnd <:+ i.message ↔ i.isAboutWindow = true := by
  cases i with
  | endNotAfterStart e t => exact iff_of_true (List.suffix_append_of_suffix ⟨"; ".toList, rfl⟩) rfl
  | opacityOutside v => exact iff_of_false (not_readToEnd_suffix _ (by decide)) nofun
  | notPositive c v => exact iff_of_false (not_readToEnd_suffix _ (by decide)) nofun
  | outsideEditorRange c v => exact iff_of_false (not_readToEnd_suffix _ (last_greatest c)) nofun
  | negativeTime m v => exact iff_of_false (not_readToEnd_suffix _ (by decide)) nofun
  | extensionEmpty => exact iff_of_false (by decide) nofun
  | extensionLeadingDot e => exact iff_of_false (not_readToEnd_suffix _ (by decide)) nofun
  | extensionCharacters e => exact iff_of_false (not_readToEnd_suffix _ (by decide)) nofun
  | folderEmpty f => exact iff_of_false (not_readToEnd_suffix _ (by decide)) nofun

theorem any_when_of_not {condition : Bool} {issue : Issue} (h : issue.isAboutWindow = false) :
    (when condition issue).any isAboutWindow = false := by
  cases condition with
  | false => rfl
  | true => rw [when, if_pos rfl, List.any_cons, h, List.any_nil, Bool.or_false]

theorem any_ofWindow (endTime startTime : Binary64) :
    (ofWindow endTime startTime).any isAboutWindow = (endTime.isPositive && endTime.le startTime) := by
  unfold ofWindow when
  split
  · exact Eq.symm ‹_›
  · exact (Bool.eq_false_iff.2 ‹_›).symm

theorem any_ofControl (c : Control) (v : Binary64) : (ofControl c v).any isAboutWindow = false := by
  unfold ofControl
  split
  · rfl
  · exact any_when_of_not rfl

theorem any_ofExtension (t : Text) : (ofExtension t).any isAboutWindow = false := by
  rw [ofExtension, List.any_append, any_when_of_not rfl, Bool.or_false]
  split
  · rfl
  · exact any_when_of_not rfl

end Issue

namespace Settings

theorem any_issues (s : Settings) :
    s.issues.any Issue.isAboutWindow = (s.endTime.isPositive && s.endTime.le s.startTime) := by
  have hopacity : (Issue.ofOpacity s.opacity).any Issue.isAboutWindow = false := Issue.any_when_of_not rfl
  have htime : ∀ m v, (Issue.ofTime m v).any Issue.isAboutWindow = false := fun _ _ => Issue.any_when_of_not rfl
  have hfolder : ∀ f t, (Issue.ofFolder f t).any Issue.isAboutWindow = false := fun _ _ => Issue.any_when_of_not rfl
  have hfolders : (if s.batch then Issue.ofFolder .input s.inputFolder ++ Issue.ofFolder .output s.outputFolder
      else []).any Issue.isAboutWindow = false := by
    split
    · rw [List.any_append, hfolder, hfolder, Bool.or_false]
    · rfl
  simp only [issues, List.any_append, hopacity, htime, hfolders, Issue.any_ofControl, Issue.any_ofWindow,
    Issue.any_ofExtension, Bool.or_false, Bool.false_or]

/-- A report says that the source will be read to its end exactly if there is an end that is not after the start. -/
theorem reports_readToEnd_iff (s : Settings) :
    (∃ m ∈ s.issues.map Issue.message, Issue.readToEnd <:+ m)
      ↔ s.endTime.isPositive = true ∧ s.endTime.le s.startTime = true := by
  rw [← Bool.and_eq_true_iff, ← any_issues, List.any_eq_true]
  constructor
  · rintro ⟨m, hm, hsuffix⟩
    obtain ⟨i, hi, rfl⟩ := List.mem_map.1 hm
    exact ⟨i, hi, (Issue.readToEnd_suffix_iff i).1 hsuffix⟩
  · rintro ⟨i, hi, habout⟩
    exact ⟨i.message, List.mem_map_of_mem hi, (Issue.readToEnd_suffix_iff i).2 habout⟩

end Settings

open Binary64 in
/-- The arguments for the part of the source follow the two times, whatever numbers they are. The length from start to
end is a number from 0 on; there is a length to keep exactly if the start is before the end, and a seek exactly if the
start is above 0, and both are above 0 then. Just behind the program a command has the two flags with these numbers in
these cases, and the flags nowhere else. After sanitizing, the length is finite, and the report says that the source
will be read to its end exactly if the end is above 0 and the command has no length. -/
theorem trim_arguments_follow_times (s : Settings) (c : Chain) (image : Text) :
    (s.effectiveDuration ≠ .nan ∧ zero.le s.effectiveDuration = true)
      ∧ (s.trimWindow.length = if s.startTime.lt s.endTime then some s.effectiveDuration else none)
      ∧ (s.trimWindow.seek = if zero.lt s.startTime then some s.startTime else none)
      ∧ (∀ d ∈ s.trimWindow.length, zero.lt d = true)
      ∧ (∀ d ∈ s.trimWindow.seek, zero.lt d = true)
      ∧ (let t := Template.assemble s c image
        (t.HasFlag "-ss".toList ↔ zero.lt s.startTime = true)
          ∧ (t.HasFlag "-t".toList ↔ s.startTime.lt s.endTime = true)
          ∧ .fixed "ffmpeg".toList
            :: (if zero.lt s.startTime then Template.word "-ss".toList ++ Template.bare s.startTime.numeral else [])
            ++ (if s.startTime.lt s.endTime then
              Template.word "-t".toList ++ Template.bare s.effectiveDuration.numeral else [])
            ++ Template.word "-i".toList <+: t.segments)
      ∧ (let u := s.sanitized
        u.effectiveDuration.isFinite = true
          ∧ ((∃ m ∈ u.issues.map Issue.message, "the source will be read to its end".toList <:+ m)
            ↔ zero.lt u.endTime = true ∧ ¬ (Template.assemble u c image).HasFlag "-t".toList)) := by
  have hseek : s.trimWindow.seek = if zero.lt s.startTime then some s.startTime else none := rfl
  have hlength : s.trimWindow.length = if s.startTime.lt s.endTime then some s.effectiveDuration else none := by
    rw [s.trimWindow_eq]
  have hnonneg : zero.le s.effectiveDuration = true := zero_le_orZero _
  obtain ⟨hasSeek, hasLength⟩ := Template.hasFlag_iff s c image
  rw [hseek, Option.isSome_ite] at hasSeek
  rw [hlength, Option.isSome_ite] at hasLength
  refine ⟨⟨(ne_nan_of_le hnonneg).2, hnonneg⟩, hlength, hseek, fun d => s.isPositive_of_mem_trimWindow.1,
    fun d => s.isPositive_of_mem_trimWindow.2, ⟨hasSeek, hasLength, ?_⟩,
    s.valid_sanitized.isFinite_effectiveDuration, ?_⟩
  · rw [Template.segments_assemble, Template.opening, hseek, hlength, Template.timed_ite, Template.timed_ite]
    exact (List.prefix_append _ [.fixed [' ', '"']]).trans (List.prefix_append _ _)
  · -- "not after" in the report and "after" in the command are opposites, since sanitized times are numbers
    have hvalid := s.valid_sanitized
    have hnot := not_lt_iff_le (ne_nan_of_isFinite hvalid.endTime.1) (ne_nan_of_isFinite hvalid.startTime.1)
    rw [(Template.hasFlag_iff s.sanitized c image).2, s.sanitized.trimWindow_eq, Option.isSome_ite, hnot]
    exact s.sanitized.reports_readToEnd_iff

end Watermark
