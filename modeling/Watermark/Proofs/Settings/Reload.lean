import Watermark.Settings.Json
import Watermark.Proofs.Json.Record
import Watermark.Proofs.Settings.Sanitized

/-!
# Settings come back from their file as far as their numbers do

Settings are written as one record, and the record is read with each number as it is read on its own
(`Settings.reread`); all else comes back as it was. Whatever text is read, the numbers are finite
(`Settings.finite_of_ofJson`), since every field keeps them so.

* `Settings.ofJson_toJson`: what is read from either notation;
* `Settings.same_reread_iff`: settings come back as the same exactly if each number does;
* `settings_reload_iff`: when saved settings come back, with the numbers that always do;
* `opacity_drifts`: a number that does not.
-/

namespace Watermark

namespace Settings

open Json (Member Reads bind_eq_ok_iff reads_float reads_int64 reads_text reads_bool)

/-- The settings that are floats. -/
def numbers (s : Settings) : List Binary64 := [s.opacity, s.scale, s.startTime, s.endTime, s.videoSpeed]

/-- No number is infinite or not-a-number; only such settings can be written to a file. -/
def Finite (s : Settings) : Prop := ∀ x ∈ s.numbers, x.isFinite = true

instance (s : Settings) : Decidable s.Finite := inferInstanceAs (Decidable (∀ x ∈ s.numbers, x.isFinite = true))

/-! ## Reading what was written -/

theorem reads_choice {α : Type} [Choice α] (a : α) :
    Reads (choice α) (Json.Quoted.encode (Choice.word a)) (.ok a) := by
  have h := (reads_text (Choice.word a)).map (Choice.ofWord (α := α))
  rw [Except.map, Choice.ofWord_word] at h
  exact h

/-- A field of the settings with the text of its value. -/
def member {α : Type} (key : String) {r : Json.Reader α} (store : α → Settings → Settings) {w : Text}
    {v : Except Json.Fault α} (h : Reads r w v) : Member Settings := .of key .initial store h

/-- The settings as the members that are written. -/
def members (s : Settings) (h : s.Finite) : List (Member Settings) :=
  have hfloat (x) (hx : x ∈ s.numbers) := reads_float (h x hx)
  [ member "opacity" (fun v s => { s with opacity := v }) (hfloat s.opacity (by simp [numbers])),
    member "x" (fun v s => { s with x := v }) (reads_int64 s.x),
    member "y" (fun v s => { s with y := v }) (reads_int64 s.y),
    member "scale" (fun v s => { s with scale := v }) (hfloat s.scale (by simp [numbers])),
    member "startTime" (fun v s => { s with startTime := v }) (hfloat s.startTime (by simp [numbers])),
    member "endTime" (fun v s => { s with endTime := v }) (hfloat s.endTime (by simp [numbers])),
    member "videoSpeed" (fun v s => { s with videoSpeed := v }) (hfloat s.videoSpeed (by simp [numbers])),
    member "audioMode" (fun v s => { s with audio := v }) (reads_choice s.audio),
    member "aspectRatio" (fun v s => { s with aspect := v }) (reads_choice s.aspect),
    member "outputResolution" (fun v s => { s with resolution := v }) (reads_choice s.resolution),
    member "isBatchMode" (fun v s => { s with batch := v }) (reads_bool s.batch),
    member "inputPath" (fun v s => { s with inputFolder := v }) (reads_text s.inputFolder),
    member "outputPath" (fun v s => { s with outputFolder := v }) (reads_text s.outputFolder),
    member "fileExtension" (fun v s => { s with extension := v }) (reads_text s.extension) ]

variable {s : Settings}

theorem field_members (h : s.Finite) : (s.members h).map (·.field) = fields := rfl

/-- The settings with each number as it is read where it was written. -/
def reread (s : Settings) : Except Json.Fault Settings := do
  let opacity ← s.opacity.reread
  let scale ← s.scale.reread
  let startTime ← s.startTime.reread
  let endTime ← s.endTime.reread
  let videoSpeed ← s.videoSpeed.reread
  return { s with opacity, scale, startTime, endTime, videoSpeed }

theorem changeAll_members (h : s.Finite) (t : Settings) : Member.changeAll (s.members h) t = s.reread := by
  simp only [members, Member.changeAll, member, Member.of, reread]
  cases s.opacity.reread <;> try rfl
  cases s.scale.reread <;> try rfl
  cases s.startTime.reread <;> try rfl
  cases s.endTime.reread <;> try rfl
  cases s.videoSpeed.reread <;> rfl

theorem compact_toJson (h : s.Finite) : s.toJson.compact = '\x7b' :: Json.Layout.compact.members true (s.members h) :=
  Json.compact_object (List.cons_ne_nil _ _) rfl

theorem pretty_toJson (h : s.Finite) : s.toJson.pretty = '\x7b' :: Json.Layout.pretty.members true (s.members h) :=
  Json.pretty_object (List.cons_ne_nil _ _) rfl

/-- Written settings are read with each number as it is read on its own, in either notation. -/
theorem ofJson_members (h : s.Finite) (l : Json.Layout) :
    ofJson ('\x7b' :: l.members true (s.members h)) = s.reread := by
  have hkeys : ((s.members h).map fun m => m.field.key) = fields.map (·.key) := rfl
  have hnodup : ((s.members h).map fun m => m.field.key).Nodup := by
    rw [hkeys]
    decide
  have hreads := (Json.reads_record hnodup l initial).readAll
  rw [field_members, changeAll_members] at hreads
  exact hreads

theorem ofJson_toJson (h : s.Finite) : ∀ t ∈ [s.toJson.compact, s.toJson.pretty], ofJson t = s.reread := by
  intro t ht
  simp only [List.mem_cons, List.not_mem_nil, or_false] at ht
  rcases ht with rfl | rfl
  · rw [compact_toJson h, ofJson_members]
  · rw [pretty_toJson h, ofJson_members]

theorem reread_eq_ok_iff {r : Settings} : s.reread = .ok r ↔
    (s.opacity.reread = .ok r.opacity ∧ s.scale.reread = .ok r.scale ∧ s.startTime.reread = .ok r.startTime
        ∧ s.endTime.reread = .ok r.endTime ∧ s.videoSpeed.reread = .ok r.videoSpeed)
      ∧ r = { s with
          opacity := r.opacity, scale := r.scale, startTime := r.startTime, endTime := r.endTime,
          videoSpeed := r.videoSpeed } := by
  unfold reread
  constructor
  · intro h
    obtain ⟨opacity, h₁, h⟩ := bind_eq_ok_iff.1 h
    obtain ⟨scale, h₂, h⟩ := bind_eq_ok_iff.1 h
    obtain ⟨startTime, h₃, h⟩ := bind_eq_ok_iff.1 h
    obtain ⟨endTime, h₄, h⟩ := bind_eq_ok_iff.1 h
    obtain ⟨videoSpeed, h₅, h⟩ := bind_eq_ok_iff.1 h
    cases h
    exact ⟨⟨h₁, h₂, h₃, h₄, h₅⟩, rfl⟩
  · rintro ⟨⟨h₁, h₂, h₃, h₄, h₅⟩, hr⟩
    rw [h₁, h₂, h₃, h₄, h₅, hr]
    rfl

theorem forall_numbers {P : Binary64 → Prop} : (∀ x ∈ s.numbers, P x) ↔
    P s.opacity ∧ P s.scale ∧ P s.startTime ∧ P s.endTime ∧ P s.videoSpeed := by
  simp [numbers]

theorem same_self (h : s.Finite) : s.same s = true := by
  have hself : ∀ x ∈ s.numbers, x.same x = true := fun x hx =>
    Binary64.same_self (Binary64.ne_nan_of_isFinite (h x hx))
  obtain ⟨hopacity, hscale, hstart, hend, hspeed⟩ := forall_numbers.1 hself
  simp [same, hopacity, hscale, hstart, hend, hspeed]

/-- Settings come back as the same exactly if each number does. -/
theorem same_reread_iff (h : s.Finite) :
    (∃ r, s.reread = .ok r ∧ r.same s = true) ↔ ∀ x ∈ s.numbers, x.Survives := by
  constructor
  · rintro ⟨r, hr, hsame⟩
    obtain ⟨⟨hopacity, hscale, hstart, hend, hspeed⟩, -⟩ := reread_eq_ok_iff.1 hr
    obtain ⟨fopacity, fscale, fstart, fend, fspeed⟩ := forall_numbers.1 h
    simp only [same, Bool.and_eq_true, and_assoc] at hsame
    obtain ⟨sopacity, -, -, sscale, sstart, send, sspeed, -⟩ := hsame
    exact forall_numbers.2 ⟨(Binary64.same_reread_iff fopacity hopacity).1 sopacity,
      (Binary64.same_reread_iff fscale hscale).1 sscale, (Binary64.same_reread_iff fstart hstart).1 sstart,
      (Binary64.same_reread_iff fend hend).1 send, (Binary64.same_reread_iff fspeed hspeed).1 sspeed⟩
  · intro hsurvive
    exact ⟨s, reread_eq_ok_iff.2 ⟨forall_numbers.1 hsurvive, rfl⟩, same_self h⟩

/-! ## What is read from any text -/

/-- A field that is not a number. -/
theorem keeps_of_numbers {α : Type} {key : String} {r : Json.Reader α} {store : α → Settings → Settings}
    (h : ∀ a s, (store a s).numbers = s.numbers) : (field key r store).Keeps Finite := by
  refine Json.Field.Keeps.of fun _ _ a _ s hs x hx => ?_
  rw [h] at hx
  exact hs x hx

/-- A field that is the number at `i`. -/
theorem keeps_number {key : String} {store : Binary64 → Settings → Settings} (i : Nat)
    (h : ∀ a s, (store a s).numbers = s.numbers.set i a) : (field key Json.float store).Keeps Finite := by
  refine Json.Field.Keeps.of fun _ _ a hread s hs x hx => ?_
  rw [h] at hx
  rcases List.mem_or_eq_of_mem_set hx with hx | rfl
  · exact hs x hx
  · exact Json.isFinite_of_run_float hread

theorem keeps_fields : ∀ f ∈ fields, f.Keeps Finite := by
  simp only [fields, List.forall_mem_cons, List.not_mem_nil, false_implies, implies_true, and_true]
  exact ⟨keeps_number 0 fun _ _ => rfl, keeps_of_numbers fun _ _ => rfl, keeps_of_numbers fun _ _ => rfl,
    keeps_number 1 fun _ _ => rfl, keeps_number 2 fun _ _ => rfl, keeps_number 3 fun _ _ => rfl,
    keeps_number 4 fun _ _ => rfl, keeps_of_numbers fun _ _ => rfl, keeps_of_numbers fun _ _ => rfl,
    keeps_of_numbers fun _ _ => rfl, keeps_of_numbers fun _ _ => rfl, keeps_of_numbers fun _ _ => rfl,
    keeps_of_numbers fun _ _ => rfl, keeps_of_numbers fun _ _ => rfl⟩

/-- Whatever the text, the numbers that are read are finite. -/
theorem finite_of_ofJson {t : Text} (h : ofJson t = .ok s) : s.Finite :=
  Json.readAll_keeps keeps_fields (by decide +kernel) h

end Settings

/-- Settings of finite numbers are read from either notation as the same exactly if each of their numbers survives, and
all else is read as it was. Settings that were read from any text have finite numbers, so this holds of them. Settings
whose numbers have at most fifteen digits near the point come back. -/
theorem settings_reload_iff (s : Settings) :
    (s.Finite → ∀ t ∈ [s.toJson.compact, s.toJson.pretty],
        ((∃ r, Settings.ofJson t = .ok r ∧ r.same s = true) ↔ ∀ x ∈ s.numbers, x.Survives)
          ∧ ∀ r, Settings.ofJson t = .ok r → r = { s with
              opacity := r.opacity, scale := r.scale, startTime := r.startTime, endTime := r.endTime,
              videoSpeed := r.videoSpeed })
      ∧ (∀ source, Settings.ofJson source = .ok s → s.Finite)
      ∧ ((∀ x ∈ s.numbers, x.Short) → ∀ t ∈ [s.toJson.compact, s.toJson.pretty], Settings.ofJson t = .ok s) := by
  refine ⟨fun hs t ht => ?_, fun _ => Settings.finite_of_ofJson, fun hshort t ht => ?_⟩
  · rw [Settings.ofJson_toJson hs t ht]
    exact ⟨Settings.same_reread_iff hs, fun r hr => (Settings.reread_eq_ok_iff.1 hr).2⟩
  · have hs : s.Finite := fun x hx => (hshort x hx).isFinite
    have hsurvive : ∀ x ∈ s.numbers, x.Survives := fun x hx => (hshort x hx).survives
    rw [Settings.ofJson_toJson hs t ht, Settings.reread_eq_ok_iff]
    exact ⟨Settings.forall_numbers.1 hsurvive, rfl⟩

/-- The settings that the editor opens with survive. -/
example : ∀ x ∈ Settings.initial.numbers, x.Survives := by decide +kernel

/-- An opacity that is loaded, saved and loaded again ends with another digit. -/
theorem opacity_drifts :
    let opacity (n : Nat) : Binary64 := .ratio n (tenPow 16)
    let s := { Settings.initial with opacity := opacity 9736923870306325 }
    Settings.ofJson "\x7b\"opacity\":0.9736923870306326\x7d".toList = .ok s
      ∧ Settings.ofJson s.toJson.pretty = .ok { s with opacity := opacity 9736923870306324 }
      ∧ (opacity 9736923870306324).same (opacity 9736923870306325) = false := by
  decide +kernel

end Watermark
