import Mathlib.Data.List.DropRight
import Watermark.Assistant.Session
import Watermark.Proofs.Command.SplicedNumbers
import Watermark.Proofs.Filter.LinearChain

/-!
# What a new source changes

A source comes with its length, and choosing another one starts the part and the speed afresh. Between these edits
settings may be sanitized, any number of times. None of them leads out of the sanitized settings, and of a whole run
only two things count: whether there was a new source, and the last length that was a positive number since then
(`Edit.lastLength?`).

* `Settings.HasSource`: what these two make of the settings;
* `Settings.HasSource.apply` and `Settings.hasSource_afterEdits`: one edit and, by induction, a run of them;
* `Settings.HasSource.trimWindow_eq`, `Settings.HasSource.contains_speed`: the command for a new source.
-/

namespace Watermark

namespace Edit

/-- An edit that a source makes, or sanitizing; only other edits replace settings. -/
def isOfSource : Edit → Bool
  | replace _ => false
  | _ => true

/-- The length that an edit reports, if it is a positive number. -/
def length? : Edit → Option Binary64
  | duration d => if d.isFinite && d.isPositive then some d else none
  | _ => none

/-- The last positive length that was reported since the last new source. -/
def lastLength? (es : List Edit) : Option Binary64 := ((es.rtakeWhile (· != newSource)).filterMap length?).getLast?

theorem lastLength?_concat (es : List Edit) (e : Edit) :
    lastLength? (es ++ [e]) = if e = newSource then none else e.length?.or (lastLength? es) := by
  rw [lastLength?, List.rtakeWhile_concat]
  by_cases h : e = newSource
  · simp [h]
  · simp only [bne_iff_ne, ne_eq, h, not_false_eq_true, if_true, if_false, List.filterMap_append, List.getLast?_append]
    cases hlength : e.length? <;> simp [hlength, lastLength?]

theorem isFactor_of_length? {e : Edit} {d : Binary64} (h : e.length? = some d) : d.IsFactor := by
  cases e with
  | duration d' =>
    obtain ⟨hd, h⟩ := Option.ite_none_right_eq_some.1 h
    obtain rfl := Option.some.inj h
    exact Bool.and_eq_true_iff.1 hd
  | replace | newSource | sanitize => cases h

theorem isFactor_of_lastLength? {es : List Edit} {d : Binary64} (h : lastLength? es = some d) : d.IsFactor := by
  obtain ⟨e, -, he⟩ := List.mem_filterMap.1 (List.mem_of_getLast? h)
  exact isFactor_of_length? he

/-- Behind a new source the lengths count, whatever was before. -/
theorem lastLength?_newSource (es : List Edit) (ds : List Binary64) :
    lastLength? (es ++ newSource :: ds.map duration) = (ds.filter fun d => d.isFinite && d.isPositive).getLast? := by
  induction ds using List.reverseRecOn with
  | nil => rw [List.map_nil, lastLength?_concat, if_pos rfl]; rfl
  | append_singleton ds d ih =>
    have happend : es ++ newSource :: (ds ++ [d]).map duration
        = es ++ newSource :: ds.map duration ++ [duration d] := by
      simp
    rw [happend, lastLength?_concat, if_neg (by simp), ih, List.filter_append, List.getLast?_append, length?]
    cases h : d.isFinite && d.isPositive <;> simp [h]

end Edit

/-- Nothing is lost in a difference to zero. -/
theorem Binary64.IsFactor.orZero_sub_zero {d : Binary64} (h : d.IsFactor) : (d.sub .zero).orZero = d := by
  obtain ⟨m, rfl, hplace, hm⟩ := h.exists_magnitude
  have hunits : Magnitude.nearest? m.units 1 = some m := by
    rw [← Magnitude.nearest?_units m Nat.one_pos, Nat.mul_one]
  have hround := Binary64.ofUnits_of_nearest? hunits false
  have hpositive : ¬ (m.units : Int) - 0 < 0 := by omega
  have hzero : Binary64.zero.place = some 0 := rfl
  rw [orZero_sub h.1 rfl hplace hzero, if_neg (by omega), decide_eq_false hpositive, Int.sub_zero, Int.natAbs_natCast,
    hround, orZero, if_pos h.2]

theorem Chain.contains_iff {c : Chain} {r : Role} : c.contains r = true ↔ r ∈ c.stages.map Stage.role := by
  simp [contains]

namespace Settings

/-! ## Runs of edits -/

/-- The settings after edits, one after the other. -/
def afterEdits (s : Settings) (es : List Edit) : Settings := es.foldl (fun s e => e.apply s) s

/-- What the source makes of `s`: it is another one if `fresh`, and has told its length if that is known. Sanitizing
may take the sign from a zero, so times are the same as numbers only. -/
structure HasSource (s : Settings) (fresh : Bool) (length : Option Binary64) (u : Settings) : Prop where
  startTime : u.startTime.same (if fresh then .zero else s.startTime) = true
  endTime : u.endTime.same (length.getD (if fresh then .zero else s.endTime)) = true
  videoSpeed : u.videoSpeed = if fresh then .one else s.videoSpeed
  others : u = { s with startTime := u.startTime, endTime := u.endTime, videoSpeed := u.videoSpeed }

namespace HasSource

variable {s u : Settings} {fresh : Bool} {length : Option Binary64}

theorem self (hs : s.Valid) : s.HasSource false none s :=
  ⟨Binary64.same_self (Binary64.ne_nan_of_isFinite hs.startTime.1),
    Binary64.same_self (Binary64.ne_nan_of_isFinite hs.endTime.1), rfl, rfl⟩

/-- Valid settings stay valid with any source. -/
theorem valid (h : s.HasSource fresh length u) (hs : s.Valid) (hlength : ∀ d ∈ length, d.IsFactor) : u.Valid := by
  have hzero : Binary64.zero.IsTime := by decide
  have hstart : (if fresh then .zero else s.startTime).IsTime := by
    cases fresh with
    | false => exact hs.startTime
    | true => exact hzero
  have hend : (length.getD (if fresh then .zero else s.endTime)).IsTime := by
    cases length with
    | some d => exact ⟨(hlength d rfl).1, Binary64.le_of_lt (hlength d rfl).2⟩
    | none =>
      cases fresh with
      | false => exact hs.endTime
      | true => exact hzero
  have hspeed : u.videoSpeed.IsFactor := by
    rw [h.videoSpeed]
    split
    · exact Binary64.isFactor_one
    · exact hs.videoSpeed
  have htime := Binary64.retraction_finiteOrZero.ok_of_same
  rw [h.others]
  exact { hs with
    startTime := htime _ _ (Binary64.same_comm _ _ ▸ h.startTime) hstart
    endTime := htime _ _ (Binary64.same_comm _ _ ▸ h.endTime) hend
    videoSpeed := hspeed }

/-- Sanitizing changes nothing but the sign of a zero. -/
theorem sanitized (h : s.HasSource fresh length u) (hs : s.Valid) (hu : u.Valid) :
    s.HasSource fresh length u.sanitized where
  startTime := Binary64.same_trans (Binary64.retraction_finiteOrZero.same_of_ok _ hu.startTime) h.startTime
  endTime := Binary64.same_trans (Binary64.retraction_finiteOrZero.same_of_ok _ hu.endTime) h.endTime
  videoSpeed := hu.videoSpeed.positiveOrOne.trans h.videoSpeed
  others := by
    have hopacity := hs.opacity.asOpacity
    have hscale := hs.scale.positiveOrOne
    have hin := eq_of_beq (retraction_inputFolder.same_of_ok _ hs.inputFolder)
    have hout := eq_of_beq (retraction_outputFolder.same_of_ok _ hs.outputFolder)
    have hextension := hs.extension.normalize
    calc u.sanitized
        = { s.sanitized with
            startTime := u.startTime.finiteOrZero
            endTime := u.endTime.finiteOrZero
            videoSpeed := u.videoSpeed.positiveOrOne } := by rw [h.others]; rfl
      _ = _ := by
        simp only [Settings.sanitized, hopacity, hscale, hin, hout, hextension]

/-- One edit makes a new source of any one, or its length of any length, or nothing at all. -/
theorem apply (h : s.HasSource fresh length u) (hs : s.Valid) (hu : u.Valid) {e : Edit} (he : e.isOfSource = true) :
    s.HasSource (decide (e = .newSource) || fresh) (if e = .newSource then none else e.length?.or length)
      (e.apply u) := by
  cases e with
  | replace t => cases he
  | newSource =>
    rw [decide_eq_true rfl, Bool.true_or, if_pos rfl]
    refine ⟨Binary64.same_self nofun, Binary64.same_self nofun, ?_, ?_⟩
    · simp only [Edit.apply, resetForNewSource, if_true]
    · simp only [Edit.apply, resetForNewSource]
      rw [h.others]
  | sanitize => exact h.sanitized hs hu
  | duration d =>
    rw [if_neg nofun]
    show s.HasSource fresh (Option.or (if d.isFinite && d.isPositive then some d else none) length)
      (u.applyMediaDuration d)
    unfold applyMediaDuration
    split
    · rename_i hd
      refine ⟨h.startTime, Binary64.same_self (Binary64.ne_nan_of_isFinite (Bool.and_eq_true_iff.1 hd).1),
        h.videoSpeed, ?_⟩
      rw [h.others]
    · exact h

end HasSource

/-- Of a run of edits only a new source and the last length behind it count. -/
theorem hasSource_afterEdits {s : Settings} (hs : s.Valid) {es : List Edit} (hes : ∀ e ∈ es, e.isOfSource = true) :
    s.HasSource (.newSource ∈ es) (Edit.lastLength? es) (s.afterEdits es) := by
  induction es using List.reverseRecOn with
  | nil => exact .self hs
  | append_singleton es e ih =>
    rw [List.forall_mem_append, List.forall_mem_singleton] at hes
    have hrun : s.afterEdits (es ++ [e]) = e.apply (s.afterEdits es) := by simp [afterEdits]
    have hfresh : decide (.newSource ∈ es ++ [e]) = (decide (e = .newSource) || decide (.newSource ∈ es)) := by
      simp [Bool.or_comm, eq_comm]
    have hbefore := ih hes.1
    rw [hrun, hfresh, Edit.lastLength?_concat]
    exact hbefore.apply hs (hbefore.valid hs fun d => Edit.isFactor_of_lastLength?) hes.2

/-! ## The command for a new source -/

namespace HasSource

variable {s u : Settings} {length : Option Binary64}

theorem effectiveDuration_eq (h : s.HasSource true length u) (hu : u.Valid) (hlength : ∀ d ∈ length, d.IsFactor) :
    u.effectiveDuration = length.getD .zero := by
  rw [effectiveDuration, Binary64.orZero_sub_congr hu.endTime.1 hu.startTime.1 h.endTime h.startTime]
  cases length with
  | none => exact Binary64.orZero_of_same_zero rfl
  | some d => exact (hlength d rfl).orZero_sub_zero

/-- The part that is kept has the length of the source, and goes to its end where that is not known. -/
theorem trimWindow_eq (h : s.HasSource true length u) (hu : u.Valid) (hlength : ∀ d ∈ length, d.IsFactor) :
    u.trimWindow = ⟨none, length⟩ := by
  have hstart : u.startTime.isPositive = false := (Binary64.isPositive_congr h.startTime).trans Binary64.isPositive_zero
  rw [trimWindow, h.effectiveDuration_eq hu hlength, hstart, if_neg Bool.false_ne_true]
  cases length with
  | none => rfl
  | some d => rw [Option.getD_some, if_pos (hlength d rfl).2]

/-- A new source plays at its own speed. -/
theorem contains_speed (h : s.HasSource true length u) : u.chain.contains .speed = false := by
  have hchanges : u.changesSpeed = false := by
    rw [changesSpeed, h.videoSpeed, if_pos rfl, Binary64.same_self Binary64.one_ne_nan, Bool.not_true]
  rw [Bool.eq_false_iff, ne_eq, Chain.contains_iff, roles_chain, hchanges]
  cases u.aspect <;> cases u.resolution <;> decide

end HasSource

end Settings

open Settings in
/-- Edits for a source keep settings valid, and of a run of them what counts is whether there was a new source and the
last length since then that was a positive number. The end has that length; without one, it is 0 where there was a new
source, and where it was if there was none. The start and the speed begin afresh with a new source, and all the rest
stays. Where only lengths follow a new source, a command has no seek and no stage for the speed, and just behind the
program it has the last positive length, if there is one. -/
theorem source_changes_follow_source (s : Settings) (hs : s.sanitized.same s = true) (es : List Edit)
    (hes : ∀ e ∈ es, e.isOfSource = true) :
    let u := s.afterEdits es
    u.sanitized.same u = true
      ∧ u.startTime.same (if .newSource ∈ es then .zero else s.startTime) = true
      ∧ u.endTime.same ((Edit.lastLength? es).getD (if .newSource ∈ es then .zero else s.endTime)) = true
      ∧ u.videoSpeed = (if .newSource ∈ es then .one else s.videoSpeed)
      ∧ u = { s with startTime := u.startTime, endTime := u.endTime, videoSpeed := u.videoSpeed }
      ∧ ∀ (before : List Edit) (ds : List Binary64), es = before ++ .newSource :: ds.map .duration →
        let last := (ds.filter fun d => d.isFinite && d.isPositive).getLast?
        u.chain.contains .speed = false ∧ ∀ image, ¬ (u.template image).HasFlag "-ss".toList
          ∧ .fixed "ffmpeg".toList :: Template.timed "-t".toList last ++ Template.word "-i".toList
            <+: (u.template image).segments := by
  have hvalid : s.Valid := (retraction_sanitized.same_iff s).1 hs
  have hsource := hasSource_afterEdits hvalid hes
  have hlength : ∀ d ∈ Edit.lastLength? es, d.IsFactor := fun d => Edit.isFactor_of_lastLength?
  have hafter := hsource.valid hvalid hlength
  refine ⟨hafter.same_sanitized, ?_, ?_, ?_, hsource.others, fun before ds hrun => ?_⟩
  · simpa using hsource.startTime
  · simpa using hsource.endTime
  · simpa using hsource.videoSpeed
  · have hnew : Edit.newSource ∈ es := hrun ▸ List.mem_append_right _ List.mem_cons_self
    have hlast := Edit.lastLength?_newSource before ds
    rw [← hrun] at hlast
    rw [decide_eq_true hnew] at hsource
    have hwindow := hsource.trimWindow_eq hafter hlength
    refine ⟨hsource.contains_speed, fun image => ⟨?_, ?_⟩⟩
    · rw [template, (Template.hasFlag_iff _ _ image).1, hwindow]
      exact Bool.false_ne_true
    · rw [template, Template.segments_assemble, Template.opening, hwindow, hlast]
      exact (List.prefix_append _ [.fixed [' ', '"']]).trans (List.prefix_append _ _)

/-- A length that is no number comes late, and another source had a length before. -/
theorem last_length_of_new_source :
    let es := [.duration (.ratio 90 1), .sanitize, .newSource, .duration (.ratio 12 1), .duration .nan, .duration .zero]
    let u := Settings.initial.afterEdits es
    u.endTime.same (.ratio 12 1) = true ∧ u.chain.contains .speed = false := by
  have hsource := source_changes_follow_source Settings.initial (by decide +kernel)
    [.duration (.ratio 90 1), .sanitize, .newSource, .duration (.ratio 12 1), .duration .nan, .duration .zero]
    (by decide)
  obtain ⟨-, -, hend, -, -, hcommand⟩ := hsource
  have hlast : Edit.lastLength? [.duration (.ratio 90 1), .sanitize, .newSource, .duration (.ratio 12 1),
      .duration .nan, .duration .zero] = some (.ratio 12 1) := by decide +kernel
  rw [hlast, Option.getD_some] at hend
  exact ⟨hend, (hcommand [.duration (.ratio 90 1), .sanitize] [.ratio 12 1, .nan, .zero] rfl).1⟩

end Watermark
