import Mathlib.Data.List.Nodup
import Watermark.Settings.Json
import Watermark.Proofs.Json.Object
import Watermark.Proofs.Json.Range

/-!
# Settings are read from any object

A settings file is an object with any members. `Settings.Accepted` says which members are read: the keys are texts, no
setting occurs twice, and each has a value of its kind. All else in the object is foreign and may be anything.
`Settings.updated` says what accepted members give: the settings that they name, and the initial ones otherwise.

* `Settings.foldl_apply`: member by member the settings are changed to that, by induction on the members;
* `Settings.ofJson_eq_ok_iff`: so an object is read exactly if its members are accepted, as what they give;
* `Settings.updated_perm`: it does not matter in which order the settings stand, nor what is foreign;
* `settings_of_any_members`: the law of settings files;
* `scale_near_largest`: a number in range that is refused nevertheless.
-/

namespace Watermark

namespace Settings

open Json (Content Members Typed takes_float takes_int64 takes_bool takes_text)

/-! ## The values of a settings file -/

/-- The kinds of values in a settings file. -/
inductive Kind where
  | float
  | int
  | flag
  | text

/-- Whether a value is of a kind. -/
def Kind.holds : Kind → Content → Bool
  | float, c => c.float?.isSome
  | int, c => c.int64?.isSome
  | flag, c => c.bool?.isSome
  | text, c => c.text?.isSome

/-- The keys of a settings file and the kinds of their values. -/
def kinds : List (Text × Kind) :=
  [("opacity".toList, .float), ("x".toList, .int), ("y".toList, .int), ("scale".toList, .float),
    ("startTime".toList, .float), ("endTime".toList, .float), ("videoSpeed".toList, .float),
    ("audioMode".toList, .text), ("aspectRatio".toList, .text), ("outputResolution".toList, .text),
    ("isBatchMode".toList, .flag), ("inputPath".toList, .text), ("outputPath".toList, .text),
    ("fileExtension".toList, .text)]

def keys : List Text := kinds.map Prod.fst

/-- The members that are settings; the others are foreign. -/
def known (ms : Members) : Members := ms.filter fun m => m.1.any fun k => k ∈ keys

/-- The members of a settings file: every key is a text, none of a setting occurs twice, and each setting has a value
of its kind. Foreign members have any value. -/
structure Accepted (ms : Members) : Prop where
  names : ∀ m ∈ ms, m.1.isSome
  once : ((known ms).map Prod.fst).Nodup
  fits : ∀ m ∈ ms, ∀ p ∈ kinds, m.1 = some p.1 → p.2.holds m.2

/-- What members give for a key, `d` where they give nothing. -/
def pick {α : Type} (ms : Members) (key : Text) (take : Content → Option α) (d : α) : α :=
  ((ms.lookup (some key)).bind take).getD d

/-- An option by the word that stands for it; an unknown word means the source as it is. -/
def option? {α : Type} [Choice α] (c : Content) : Option α := c.text?.map Choice.ofWord

/-- Settings with what members give for them. -/
def updated (s : Settings) (ms : Members) : Settings where
  opacity := pick ms "opacity".toList Content.float? s.opacity
  x := pick ms "x".toList Content.int64? s.x
  y := pick ms "y".toList Content.int64? s.y
  scale := pick ms "scale".toList Content.float? s.scale
  startTime := pick ms "startTime".toList Content.float? s.startTime
  endTime := pick ms "endTime".toList Content.float? s.endTime
  videoSpeed := pick ms "videoSpeed".toList Content.float? s.videoSpeed
  audio := pick ms "audioMode".toList option? s.audio
  aspect := pick ms "aspectRatio".toList option? s.aspect
  resolution := pick ms "outputResolution".toList option? s.resolution
  batch := pick ms "isBatchMode".toList Content.bool? s.batch
  inputFolder := pick ms "inputPath".toList Content.text? s.inputFolder
  outputFolder := pick ms "outputPath".toList Content.text? s.outputFolder
  extension := pick ms "fileExtension".toList Content.text? s.extension

/-! ## The fields -/

theorem takes_choice (α : Type) [Choice α] : Json.Takes (choice α) option? := takes_text.map _

/-- The fields with what they make of the content of their values. -/
def typedFields : List (Typed Settings) :=
  [ .of "opacity" .initial (fun v s => { s with opacity := v }) takes_float,
    .of "x" .initial (fun v s => { s with x := v }) takes_int64,
    .of "y" .initial (fun v s => { s with y := v }) takes_int64,
    .of "scale" .initial (fun v s => { s with scale := v }) takes_float,
    .of "startTime" .initial (fun v s => { s with startTime := v }) takes_float,
    .of "endTime" .initial (fun v s => { s with endTime := v }) takes_float,
    .of "videoSpeed" .initial (fun v s => { s with videoSpeed := v }) takes_float,
    .of "audioMode" .initial (fun v s => { s with audio := v }) (takes_choice Audio),
    .of "aspectRatio" .initial (fun v s => { s with aspect := v }) (takes_choice Aspect),
    .of "outputResolution" .initial (fun v s => { s with resolution := v }) (takes_choice Resolution),
    .of "isBatchMode" .initial (fun v s => { s with batch := v }) takes_bool,
    .of "inputPath" .initial (fun v s => { s with inputFolder := v }) takes_text,
    .of "outputPath" .initial (fun v s => { s with outputFolder := v }) takes_text,
    .of "fileExtension" .initial (fun v s => { s with extension := v }) takes_text ]

theorem field_typedFields : typedFields.map (·.field) = fields := rfl

theorem keys_typedFields : typedFields.map (·.field.key) = keys := rfl

theorem isSome_take_typedFields :
    typedFields.map (fun f => (f.field.key, fun c => (f.take c).isSome)) = kinds.map fun p => (p.1, p.2.holds) := by
  simp only [typedFields, kinds, Typed.of, List.map_cons, List.map_nil, Option.isSome_map, option?]
  rfl

variable {ms : Members} {s : Settings} {c : Content} {α : Type}

theorem pick_cons (k key : Text) (take : Content → Option α) (d : α) :
    pick ((some k, c) :: ms) key take d = if key = k then (take c).getD d else pick ms key take d := by
  rw [pick, List.lookup_cons]
  by_cases h : key = k
  · simp [h]
  · have hne : (some key == some k) = false := by simpa using h
    rw [hne, if_neg h, pick]

theorem pick_of_none {key : Text} (h : ms.lookup (some key) = none) (take : Content → Option α) (d : α) :
    pick ms key take d = d := by
  rw [pick, h]
  rfl

theorem updated_congr {ms' : Members} (h : ∀ k ∈ keys, ms.lookup (some k) = ms'.lookup (some k)) :
    s.updated ms = s.updated ms' := by
  simp only [keys, kinds, List.map_cons, List.map_nil, List.forall_mem_cons, List.not_mem_nil, false_implies,
    implies_true, and_true] at h
  simp only [updated, pick, h]

/-- A foreign member changes nothing. -/
theorem updated_foreign {k : Text} (h : k ∉ keys) : s.updated ((some k, c) :: ms) = s.updated ms := by
  refine updated_congr fun key hkey => ?_
  have hne : (some key == some k) = false := by
    rw [beq_eq_false_iff_ne]
    rintro ⟨rfl⟩
    exact h hkey
  rw [List.lookup_cons, hne]

/-- A setting that occurs once more nowhere is changed. -/
theorem updated_setting {f : Typed Settings} (hf : f ∈ typedFields) {change : Settings → Settings}
    (hchange : f.take c = some change) (hnot : ms.lookup (some f.field.key) = none) :
    s.updated ((some f.field.key, c) :: ms) = (change s).updated ms := by
  simp only [typedFields, List.mem_cons, List.not_mem_nil, or_false] at hf
  rcases hf with rfl | rfl | rfl | rfl | rfl | rfl | rfl | rfl | rfl | rfl | rfl | rfl | rfl | rfl
  -- the key is found at once for this setting, and all others are looked up behind the member
  all_goals
    obtain ⟨v, hv, rfl⟩ := Option.map_eq_some_iff.1 hchange
    simp only [Typed.of, Json.Field.of] at hnot ⊢
    simp only [updated, pick_cons, hv, pick_of_none hnot, String.toList_inj, String.reduceEq, if_true, if_false,
      Option.getD_some]

/-! ## What is accepted and what it gives -/

theorem mem_of_find? {k : Text} {f : Typed Settings} (h : Typed.find? typedFields k = some f) :
    f ∈ typedFields ∧ f.field.key = k :=
  ⟨List.mem_of_find?_eq_some h, by simpa using List.find?_some h⟩

theorem isSome_find? (k : Text) : (Typed.find? typedFields k).isSome = decide (k ∈ keys) := by
  rw [Bool.eq_iff_iff, Typed.find?, List.find?_isSome, decide_eq_true_iff, ← keys_typedFields, List.mem_map]
  simp

theorem known_eq (ms : Members) : (known ms).map Prod.fst = (Typed.known typedFields ms).map some := by
  induction ms with
  | nil => rfl
  | cons m ms ih =>
    obtain ⟨_ | k, c⟩ := m
    · exact ih
    · by_cases hk : k ∈ keys
      · simpa [known, Typed.known, isSome_find?, hk] using ih
      · simpa [known, Typed.known, isSome_find?, hk] using ih

/-- A field takes the values of its kind. -/
theorem exists_kind {f : Typed Settings} (hf : f ∈ typedFields) :
    ∃ p ∈ kinds, p.1 = f.field.key ∧ ∀ c, p.2.holds c = (f.take c).isSome := by
  have hmem : (f.field.key, fun c => (f.take c).isSome) ∈ kinds.map fun p => (p.1, p.2.holds) := by
    rw [← isSome_take_typedFields]
    exact List.mem_map_of_mem hf
  obtain ⟨p, hp, heq⟩ := List.mem_map.1 hmem
  rw [Prod.mk.injEq] at heq
  exact ⟨p, hp, heq.1, fun c => congrFun heq.2 c⟩

theorem nodup_keys : (kinds.map Prod.fst).Nodup := by decide

theorem accepts_iff : Typed.Accepts typedFields [] ms ↔ Accepted ms := by
  have honce : ((known ms).map Prod.fst).Nodup ↔ (Typed.known typedFields ms).Nodup := by
    rw [known_eq, List.nodup_map_iff fun _ _ => Option.some.inj]
  constructor
  · rintro ⟨hnames, -, honce', hfits⟩
    refine ⟨hnames, honce.2 honce', fun m hm p hp hkey => ?_⟩
    have hfield : (Typed.find? typedFields p.1).isSome = true := by
      rw [isSome_find?]
      exact decide_eq_true (List.mem_map_of_mem hp)
    obtain ⟨f, hf⟩ := Option.isSome_iff_exists.1 hfield
    obtain ⟨hmem, hfkey⟩ := mem_of_find? hf
    obtain ⟨q, hq, hqkey, hholds⟩ := exists_kind hmem
    have heq : q = p := List.inj_on_of_nodup_map nodup_keys hq hp (hqkey.trans hfkey)
    rw [← heq, hholds]
    exact hfits m hm f (by rw [hkey]; exact hf)
  · rintro ⟨hnames, honce', hfits⟩
    refine ⟨hnames, fun _ _ => List.not_mem_nil, honce.1 honce', fun m hm f hf => ?_⟩
    obtain ⟨k, hkey, hfind⟩ := Option.bind_eq_some_iff.1 hf
    obtain ⟨hmem, hfkey⟩ := mem_of_find? hfind
    obtain ⟨q, hq, hqkey, hholds⟩ := exists_kind hmem
    rw [← hholds]
    exact hfits m hm q hq (hkey.trans (congrArg some (hqkey.trans hfkey).symm))

/-- A setting that has occurred does not occur again. -/
theorem lookup_eq_none {seen : List Text} {k : Text} (h : Typed.Accepts typedFields (k :: seen) ms) (hk : k ∈ keys) :
    ms.lookup (some k) = none := by
  rw [List.lookup_eq_none_iff]
  rintro ⟨k', c⟩ hm
  rw [bne_iff_ne]
  rintro rfl
  have hknown : k ∈ Typed.known typedFields ms := by
    rw [Typed.known, List.mem_filter, isSome_find?]
    exact ⟨List.mem_filterMap.2 ⟨_, hm, rfl⟩, decide_eq_true hk⟩
  exact h.fresh k hknown List.mem_cons_self

/-- What the members make of settings, one after the other. -/
theorem foldl_apply {seen : List Text} (h : Typed.Accepts typedFields seen ms) :
    ms.foldl (Typed.apply typedFields) s = s.updated ms := by
  induction ms generalizing s seen with
  | nil => rfl
  | cons m ms ih =>
    obtain ⟨_ | k, c⟩ := m
    · exact absurd h Typed.not_accepts_nameless
    rw [List.foldl_cons]
    cases hf : Typed.find? typedFields k with
    | none =>
      have happly : Typed.apply typedFields s (some k, c) = s := by simp [Typed.apply, hf]
      have hforeign : k ∉ keys := by simpa [hf] using isSome_find? k
      rw [happly, ih ((Typed.accepts_unknown hf).1 h), updated_foreign hforeign]
    | some f =>
      obtain ⟨-, hfit, h⟩ := (Typed.accepts_known hf).1 h
      obtain ⟨change, hchange⟩ := Option.isSome_iff_exists.1 hfit
      obtain ⟨hmem, rfl⟩ := mem_of_find? hf
      have happly : Typed.apply typedFields s (some f.field.key, c) = change s := by simp [Typed.apply, hf, hchange]
      have hkey : f.field.key ∈ keys := by simpa [hf] using isSome_find? f.field.key
      rw [happly, ih h, updated_setting hmem hchange (lookup_eq_none h hkey)]

/-- What an object with any members is read as. -/
theorem ofJson_eq_ok_iff {t : Text} (h : Json.ObjectText ms t) {r : Settings} :
    ofJson t = .ok r ↔ Accepted ms ∧ r = initial.updated ms := by
  have habsence : ∀ f ∈ typedFields, f.field.absence ≠ .refused := by
    simp only [typedFields, List.forall_mem_cons, List.not_mem_nil, false_implies, implies_true, and_true]
    decide
  have hread := Json.readAll_record_eq_ok_iff typedFields h habsence initial (s := r)
  rw [field_typedFields] at hread
  refine hread.trans ?_
  constructor
  · rintro ⟨haccepts, rfl⟩
    exact ⟨accepts_iff.1 haccepts, foldl_apply haccepts⟩
  · rintro ⟨haccepted, rfl⟩
    have haccepts := accepts_iff.2 haccepted
    exact ⟨haccepts, (foldl_apply haccepts).symm⟩

/-! ## Members in another order -/

theorem lookup_eq_of_perm {β γ : Type} [BEq β] [LawfulBEq β] {l l' : List (β × γ)} (h : l.Perm l')
    (hnodup : (l.map Prod.fst).Nodup) (k : β) : l.lookup k = l'.lookup k := by
  induction h with
  | nil => rfl
  | cons p _ ih => rw [List.lookup_cons, List.lookup_cons, ih (List.nodup_cons.1 hnodup).2]
  | swap p q l =>
    have hne : q.1 ≠ p.1 := fun heq => (List.nodup_cons.1 hnodup).1 (heq ▸ List.mem_cons_self)
    rw [List.lookup_cons, List.lookup_cons, List.lookup_cons, List.lookup_cons]
    cases hq : k == q.1 with
    | false => rfl
    | true =>
      have hp : (k == p.1) = false := beq_eq_false_iff_ne.2 fun heq => hne ((eq_of_beq hq).symm.trans heq)
      rw [hp]
  | trans h _ ih ih' => rw [ih hnodup, ih' ((h.map Prod.fst).nodup_iff.1 hnodup)]

theorem lookup_known {k : Text} (hk : k ∈ keys) (ms : Members) : (known ms).lookup (some k) = ms.lookup (some k) := by
  induction ms with
  | nil => rfl
  | cons m ms ih =>
    rw [List.lookup_cons, ← ih, known, List.filter_cons]
    cases hm : some k == m.1 with
    | true =>
      have hany : (m.1.any fun k => decide (k ∈ keys)) = true := by
        rw [← eq_of_beq hm]
        exact decide_eq_true hk
      rw [if_pos hany, List.lookup_cons, hm]
    | false =>
      split
      · rw [List.lookup_cons, hm]
        rfl
      · rfl

/-- Only the settings among the members count, in whatever order. -/
theorem updated_perm {ms' : Members} (hperm : (known ms).Perm (known ms'))
    (honce : ((known ms).map Prod.fst).Nodup) : s.updated ms = s.updated ms' :=
  updated_congr fun k hk => by rw [← lookup_known hk ms, lookup_eq_of_perm hperm honce, lookup_known hk]

theorem Accepted.perm {ms' : Members} (h : Accepted ms) (hperm : (known ms).Perm (known ms'))
    (hnames : ∀ m ∈ ms', m.1.isSome) : Accepted ms' where
  names := hnames
  once := (hperm.map Prod.fst).nodup_iff.1 h.once
  fits m hm p hp hkey := by
    have hknown : m ∈ known ms' := by
      rw [known, List.mem_filter, hkey]
      exact ⟨hm, decide_eq_true (List.mem_map_of_mem hp)⟩
    exact h.fits m (List.mem_of_mem_filter (hperm.mem_iff.2 hknown)) p hp hkey

theorem toOption_ofJson_perm {ms' : Members} {t t' : Text} (h : Json.ObjectText ms t) (h' : Json.ObjectText ms' t')
    (hnames : ∀ m ∈ ms ++ ms', m.1.isSome) (hperm : (known ms).Perm (known ms')) :
    (ofJson t').toOption = (ofJson t).toOption := by
  rw [List.forall_mem_append] at hnames
  refine Option.ext fun r => ?_
  rw [Json.toOption_eq_some_iff, Json.toOption_eq_some_iff, ofJson_eq_ok_iff h, ofJson_eq_ok_iff h']
  constructor
  · rintro ⟨haccepted, rfl⟩
    exact ⟨haccepted.perm hperm.symm hnames.1, updated_perm hperm.symm haccepted.once⟩
  · rintro ⟨haccepted, rfl⟩
    exact ⟨haccepted.perm hperm hnames.2, updated_perm hperm haccepted.once⟩

end Settings

open Json (Derives)

/-- A settings file is an object with any members: settings in any order, none of them twice and each with a value of
its kind, and foreign members whose keys are texts. It is read as the settings that it names, the initial ones
otherwise, and every other object is refused. So neither the order nor the foreign members matter. Numbers up to
1.797 · 10³⁰⁸ are in range. -/
theorem settings_of_any_members {ms : Json.Members} {t : Text} (h : Json.ObjectText ms t) :
    (Settings.Accepted ms → Settings.ofJson t = .ok (Settings.initial.updated ms))
      ∧ (¬ Settings.Accepted ms → ∃ e, Settings.ofJson t = .error e)
      ∧ (∀ ms' t', Json.ObjectText ms' t' → (∀ m ∈ ms ++ ms', m.1.isSome) →
        (Settings.known ms).Perm (Settings.known ms') → (Settings.ofJson t').toOption = (Settings.ofJson t).toOption)
      ∧ ∀ token : Json.Token, token.written.value ≤ 1797 * 10 ^ 305 → (Json.Content.number token).float?.isSome := by
  refine ⟨fun haccepted => ?_, fun hrefused => ?_, fun ms' t' h' => Settings.toOption_ofJson_perm h h', fun token => ?_⟩
  · exact (Settings.ofJson_eq_ok_iff h).2 ⟨haccepted, rfl⟩
  · cases hread : Settings.ofJson t with
    | error e => exact ⟨e, rfl⟩
    | ok r => exact absurd ((Settings.ofJson_eq_ok_iff h).1 hread).1 hrefused
  · exact Json.isSome_float?

/-- A file that names one setting, in a place of its own, and an option by a word that is not known. -/
theorem partial_settings :
    let ms : Json.Members :=
      [(some "later".toList, .array [.null]), (some "x".toList, .number ⟨false, "7".toList, none, none⟩),
        (some "audioMode".toList, .string (some "loud".toList))]
    let t := "\x7b \"later\":[null] , \"x\" : 7,\"audioMode\":\"loud\"\x7d".toList
    Json.ObjectText ms t ∧ Settings.ofJson t = .ok { Settings.initial with x := 7 } := by
  have hone : Text.All Json.isBlank [' '] := by decide
  have harray : Derives (.value (.array [.null])) "[null]".toList := .array .nil (.lastElement .null .nil)
  have hseven : Derives (.value (.number ⟨false, "7".toList, none, none⟩)) "7".toList :=
    .number (.mk ⟨⟨by decide, by decide⟩, by decide, nofun, nofun⟩ .none)
  have hloud : Derives (.value (.string (some "loud".toList))) "\"loud\"".toList := .plain (by decide)
  have hlater := Derives.plainMember (k := "later".toList) (by decide) .nil .nil harray hone
  have hx := Derives.plainMember (k := "x".toList) (by decide) hone hone hseven .nil
  have haudio := Derives.plainMember (k := "audioMode".toList) (by decide) .nil .nil hloud .nil
  have htext := Json.ObjectText.members .nil hone
    (.moreMembers hlater hone (.moreMembers hx .nil (.lastMember haudio))) .nil
  have hread := (settings_of_any_members htext).1 ⟨by decide, by decide, by decide⟩
  exact ⟨htext, hread.trans (by decide +kernel)⟩

/-- A scale just below the largest float is refused, since its digits are rounded up before they are scaled. -/
theorem scale_near_largest :
    let token : Json.Token := ⟨false, "1".toList, some "7976931348623157081".toList, some (false, "308".toList)⟩
    let t := "\x7b\"scale\":1.7976931348623157081e308\x7d".toList
    Json.ObjectText [(some "scale".toList, .number token)] t
      ∧ token.written.value < (2 ^ 53 - 1) * 2 ^ 971
      ∧ Settings.ofJson t = .error .malformed := by
  intro token t
  have hwell : token.WellFormed := by
    refine ⟨⟨by decide, by decide⟩, by decide, ?_, ?_⟩
    · rintro ds ⟨rfl⟩
      exact ⟨by decide, by decide⟩
    · rintro p ⟨rfl⟩
      exact ⟨by decide, by decide⟩
  have hscale := Derives.plainMember (k := "scale".toList) (by decide) .nil .nil
    (.number (.mk hwell (.unsigned List.mem_cons_self))) .nil
  have hdenominator : token.written.denominator = 1 := by decide
  have hlt : token.written.numerator < (twoPow 53 - 1) * twoPow 971 := by decide +kernel
  have hlargest : (((twoPow 53 - 1) * twoPow 971 : Nat) : ℚ) = (2 ^ 53 - 1) * 2 ^ 971 := by
    have hpower : ∀ e, ((twoPow e : Nat) : ℚ) = 2 ^ e := fun e => Nat.cast_pow 2 e
    rw [Nat.cast_mul, Nat.cast_sub (twoPow_pos 53), hpower, hpower, Nat.cast_one]
  refine ⟨.members .nil .nil (.lastMember hscale) .nil, ?_, by decide +kernel⟩
  rw [Decimal.value_eq_quotient, hdenominator, Nat.cast_one, div_one, ← hlargest]
  exact Nat.cast_lt.2 hlt

end Watermark
