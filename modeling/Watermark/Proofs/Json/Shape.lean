import Watermark.Proofs.Json.Elements
import Watermark.Proofs.Json.OnlyValues

/-!
# Shapes of values

What a reader wants is told by the contents that fit and by what each of them stands for (`TakesAs`). Which contents fit
a record is a question of its fields alone (`Content.isRecord`): a `Slot` says of a field what fits it and what its
absence means. Members with other keys may be there, and those of an object come in any order.

* `takesAs_text`, `takesAs_optional`, `takesAs_list`: the shapes of values without fields;
* `readAll_eq_ok_iff`: which texts are read, and as what.
-/

namespace Watermark.Json

variable {σ α β : Type}

/-! ## Members by their keys -/

/-- The contents with a key. -/
def Members.under (ms : Members) (key : Text) : List Content := (ms.filter fun m => m.1 == some key).map Prod.snd

namespace Members

variable {ms : Members} {key : Text} {c : Content}

theorem under_cons_self : under ((some key, c) :: ms) key = c :: under ms key := by simp [under]

theorem under_cons_of_ne {k : Option Text} (h : k ≠ some key) : under ((k, c) :: ms) key = under ms key := by
  simp [under, h]

theorem mem_under_iff : c ∈ under ms key ↔ (some key, c) ∈ ms := by
  constructor
  · intro h
    obtain ⟨m, hm, rfl⟩ := List.mem_map.1 h
    obtain ⟨hm, hkey⟩ := List.mem_filter.1 hm
    rwa [← eq_of_beq hkey]
  · intro h
    exact List.mem_map.2 ⟨_, List.mem_filter.2 ⟨h, beq_self_eq_true _⟩, rfl⟩

theorem length_under (ms : Members) (key : Text) : (under ms key).length = (ms.filterMap Prod.fst).count key := by
  induction ms with
  | nil => rfl
  | cons m ms ih =>
    obtain ⟨k?, c⟩ := m
    by_cases hk : k? = some key
    · subst hk
      rw [under_cons_self, List.length_cons, ih]
      simp
    · rw [under_cons_of_ne hk, ih]
      cases k? with
      | none => rfl
      | some k =>
        have hne : k ≠ key := fun h => hk (congrArg some h)
        exact (List.count_cons_of_ne hne).symm

end Members

/-! ## What fits -/

/-- A field of a record: what fits it and what its absence means. -/
structure Slot where
  key : Text
  absence : Absence
  fits : Content → Bool

namespace Content

def isNull : Content → Bool
  | null => true
  | _ => false

def isText (c : Content) : Bool := c.text?.isSome

/-- The text of a string, and nothing for all else. -/
def text (c : Content) : Text := c.text?.getD []

/-- The elements of an array, and none for all else. -/
def items : Content → List Content
  | array cs => cs
  | _ => []

def isListOf (fits : Content → Bool) : Content → Bool
  | array cs => cs.all fits
  | _ => false

def isNullOr (fits : Content → Bool) (c : Content) : Bool := c.isNull || fits c

/-- The members of a record: those of an object, or the elements of an array under the keys in their order. -/
def members? (keys : List Text) : Content → Option Members
  | object ms => some ms
  | array cs => if cs.length ≤ keys.length then some ((keys.map some).zip cs) else none
  | _ => none

/-- Whether a field may be missing. -/
def mayMiss : Content → Absence → Bool
  | _, .initial => true
  | object _, .initialInObject => true
  | _, _ => false

/-- Whether the members have what the field wants, once and not more often. -/
def has (c : Content) (ms : Members) (s : Slot) : Bool :=
  match ms.under s.key with
  | [] => c.mayMiss s.absence
  | [v] => s.fits v
  | _ => false

/-- Whether a record with these fields can be read. -/
def isRecord (slots : List Slot) (c : Content) : Bool :=
  (c.members? (slots.map (·.key))).any fun ms => ms.all (·.1.isSome) && slots.all (c.has ms)

/-- What stands under a key in a record with these fields, `null` where nothing does. -/
def get (slots : List Slot) (key : String) (c : Content) : Content :=
  (((c.members? (slots.map (·.key))).getD []).under key.toList).headD null

theorem eq_null_of_begins {c : Content} (h : c.begins 'n' = true) : c = null := by
  cases c with
  | null => rfl
  | bool b => cases b <;> cases h
  | _ => cases h

theorem eq_array_of_begins {c : Content} (h : c.begins '[' = true) : ∃ cs, c = array cs := by
  cases c with
  | array cs => exact ⟨cs, rfl⟩
  | bool b => cases b <;> cases h
  | _ => cases h

theorem eq_object_of_begins {c : Content} (h : c.begins '\x7b' = true) : ∃ ms, c = object ms := by
  cases c with
  | object ms => exact ⟨ms, rfl⟩
  | bool b => cases b <;> cases h
  | _ => cases h

theorem has_iff {c : Content} {ms : Members} {s : Slot} : c.has ms s = true
    ↔ ((ms.under s.key).length ≤ 1 ∧ ∀ v ∈ ms.under s.key, s.fits v = true)
      ∧ (ms.under s.key = [] → c.mayMiss s.absence = true) := by
  unfold has
  split
  · rename_i h
    simp [h]
  · rename_i v h
    simp [h]
  · rename_i hnone hone
    refine ⟨nofun, fun h => ?_⟩
    cases hunder : ms.under s.key with
    | nil => exact absurd hunder hnone
    | cons v vs =>
      rw [hunder] at h
      have hvs : vs = [] := List.length_eq_zero_iff.1 (Nat.le_zero.1 (Nat.le_of_succ_le_succ h.1.1))
      exact absurd (hvs ▸ hunder) (hone v)

end Content

/-! ## Readers of shapes -/

theorem Takes.congr {r : Reader α} {take take' : Content → Option α} (h : Takes r take)
    (htake : ∀ c, take c = take' c) : Takes r take' :=
  (funext htake : take = take') ▸ h

/-- A value that may be `null`. -/
def Content.optional? (take : Content → Option α) : Content → Option (Option α)
  | null => some none
  | c => (take c).map some

theorem takes_optional {r : Reader α} {take : Content → Option α} (h : Takes r take) :
    Takes (optional r) (Content.optional? take) := by
  intro c w gap rest hw hgap hrest
  obtain ⟨d, hpeek, hd⟩ := run_peek_value hw hgap rest
  rw [optional, run_bind_of_ok hpeek]
  split
  · obtain rfl := Content.eq_null_of_begins hd
    cases hw
    exact congrArg Except.toOption (run_bind_of_ok (run_word "null".toList rest))
  · rename_i hne
    have hsome := h.map some c w [] rest hw .nil hrest
    rw [List.nil_append] at hsome
    rw [hsome]
    cases c with
    | null => exact absurd (eq_of_beq hd) hne
    | _ => rfl

/-- What a content that fits stands for. -/
def Content.as (fits : Content → Bool) (value : Content → α) (c : Content) : Option α :=
  if fits c then some (value c) else none

/-- `r` takes the values that fit, each as what it stands for. -/
def TakesAs (r : Reader α) (fits : Content → Bool) (value : Content → α) : Prop := Takes r (Content.as fits value)

section
variable {r : Reader α} {fits : Content → Bool} {value value' : Content → α} {c : Content}

theorem Content.as_eq_some_iff {a : α} : Content.as fits value c = some a ↔ fits c = true ∧ value c = a :=
  Option.ite_none_right_eq_some.trans (and_congr_right' Option.some_inj)

theorem Content.as_of_fits (h : fits c = true) : Content.as fits value c = some (value c) := if_pos h

theorem Content.as_of_not_fits (h : fits c = false) : Content.as fits value c = none := if_neg (Bool.eq_false_iff.1 h)

theorem Content.isSome_as : (Content.as fits value c).isSome = fits c := by
  cases h : fits c with
  | true => rw [as_of_fits h]; rfl
  | false => rw [as_of_not_fits h]; rfl

theorem TakesAs.congr (h : TakesAs r fits value) (hvalue : ∀ c, fits c = true → value c = value' c) :
    TakesAs r fits value' := by
  refine Takes.congr h fun c => ?_
  cases hc : fits c with
  | true => rw [Content.as_of_fits hc, Content.as_of_fits hc, hvalue c hc]
  | false => rw [Content.as_of_not_fits hc, Content.as_of_not_fits hc]

theorem TakesAs.map (h : TakesAs r fits value) (f : α → β) : TakesAs (f <$> r) fits fun c => f (value c) := by
  refine Takes.congr (Takes.map h f) fun c => ?_
  cases hc : fits c with
  | true => rw [Content.as_of_fits hc, Content.as_of_fits hc, Option.map_some]
  | false => rw [Content.as_of_not_fits hc, Content.as_of_not_fits hc, Option.map_none]

theorem takesAs_text : TakesAs text Content.isText Content.text := by
  refine takes_text.congr fun c => ?_
  unfold Content.as Content.isText Content.text
  cases h : c.text? with
  | none => simp
  | some t => simp

theorem takesAs_optional (h : TakesAs r fits value) :
    TakesAs (optional r) (Content.isNullOr fits) fun c => if c.isNull then none else some (value c) := by
  refine (takes_optional h).congr fun c => ?_
  cases c with
  | null => rfl
  | _ => exact apply_ite (Option.map some) _ _ _

/-- A text that may be `null`, and then is none. -/
theorem takesAs_optionalText : TakesAs (optional Json.text) (Content.isNullOr Content.isText) Content.text? := by
  refine (takesAs_optional takesAs_text).congr fun c hc => ?_
  cases c with
  | null => rfl
  | string t =>
    cases t with
    | none => cases hc
    | some t => rfl
  | _ => cases hc

theorem mapM_as (fits : Content → Bool) (value : Content → α) (cs : List Content) :
    cs.mapM (Content.as fits value) = if cs.all fits then some (cs.map value) else none := by
  induction cs with
  | nil => rfl
  | cons c cs ih =>
    rw [List.mapM_cons, ih, List.all_cons, List.map_cons]
    cases hc : fits c with
    | true =>
      rw [Content.as_of_fits hc]
      cases cs.all fits <;> rfl
    | false =>
      rw [Content.as_of_not_fits hc]
      rfl

theorem takesAs_list (h : TakesAs r fits value) :
    TakesAs (list r) (Content.isListOf fits) fun c => c.items.map value := by
  refine (takes_list h).congr fun c => ?_
  cases c with
  | array cs => exact mapM_as fits value cs
  | _ => rfl

end

/-! ## Texts of one value -/

/-- The texts that hold a value with the content given, and nothing else but blanks. -/
def ValueText (c : Content) (t : Text) : Prop :=
  ∃ gap w last, gap.All isBlank ∧ Derives (.value c) w ∧ last.All isBlank ∧ t = gap ++ (w ++ last)

/-- A text is read exactly if it holds a value that the reader takes. -/
theorem readAll_eq_ok_iff {r : Reader α} {take : Content → Option α} (honly : OnlyValues r) (htakes : Takes r take)
    {t : Text} {a : α} : readAll r t = .ok a ↔ ∃ c, ValueText c t ∧ take c = some a := by
  constructor
  · intro h
    obtain ⟨last, hlast, hrun⟩ := run_of_readAll h
    obtain ⟨gap, c, w, hgap, hw, rfl⟩ := honly _ _ _ hrun
    refine ⟨c, ⟨gap, w, last, hgap, hw, hlast, rfl⟩, ?_⟩
    have htake := htakes c w gap last hw hgap (by simpa using ends_append hlast ends_nil)
    rw [hrun] at htake
    obtain ⟨a', ha', hpair⟩ := Option.map_eq_some_iff.1 htake.symm
    cases hpair
    exact ha'
  · rintro ⟨c, ⟨gap, w, last, hgap, hw, hlast, rfl⟩, ha⟩
    have htake := htakes c w gap last hw hgap (by simpa using ends_append hlast ends_nil)
    exact toOption_eq_some_iff.1 ((toOption_readAll hlast htake).trans ha)

end Watermark.Json
