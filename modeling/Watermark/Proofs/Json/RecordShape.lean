import Mathlib.Data.List.Nodup
import Watermark.Proofs.Json.Shape

/-!
# Shapes of records

A record is read in either form if each field has what it takes, once at most, and if no field is missing that has to be
there (`takesAs_record`). Both forms come to the same. The elements of an array are members with the keys of the fields
in their own order (`Typed.array_eq`, by induction on the fields), and the members of an object are accepted or not
whatever their order (`Typed.object_eq`).

What is read is told part by part: a part that one field stores and the other ones leave as it is has what stands under
the key of that field (`Shape.get_result`).
-/

namespace Watermark.Json

variable {σ α β : Type}

/-! ## Members that are accepted -/

namespace Typed

variable {fs : List (Typed σ)} {f : Typed σ} {ms : Members} {c : Content} {cs : List Content}

/-- The keys of fields in their own order. -/
def keys (fs : List (Typed σ)) : List Text := fs.map (·.field.key)

theorem find?_key (hkeys : (keys fs).Nodup) (hf : f ∈ fs) : find? fs f.field.key = some f := Json.find?_key hkeys hf

theorem of_find? {k : Text} (h : find? fs k = some f) : f ∈ fs ∧ f.field.key = k :=
  ⟨List.mem_of_find?_eq_some h, eq_of_beq (List.find?_some (p := fun g : Typed σ => g.field.key == k) h)⟩

/-- A field occurs as often as there are contents under its key. -/
theorem count_known (hkeys : (keys fs).Nodup) (hf : f ∈ fs) :
    (known fs ms).count f.field.key = (ms.under f.field.key).length := by
  have hknown : (find? fs f.field.key).isSome = true := by
    rw [find?_key hkeys hf]
    rfl
  rw [Members.length_under]
  exact List.count_filter hknown

/-- Members are accepted where each field has at most one content, which it takes. -/
theorem accepts_iff_under (hkeys : (keys fs).Nodup) : Accepts fs [] ms ↔ (∀ m ∈ ms, m.1.isSome)
    ∧ ∀ f ∈ fs, (ms.under f.field.key).length ≤ 1 ∧ ∀ c ∈ ms.under f.field.key, (f.take c).isSome := by
  constructor
  · rintro ⟨hnames, -, honce, hfits⟩
    refine ⟨hnames, fun f hf => ⟨?_, fun c hc => ?_⟩⟩
    · rw [← count_known hkeys hf]
      exact List.nodup_iff_count_le_one.1 honce _
    · exact hfits _ (Members.mem_under_iff.1 hc) f (find?_key hkeys hf)
  · rintro ⟨hnames, hfields⟩
    refine ⟨hnames, fun _ _ => List.not_mem_nil, List.nodup_iff_count_le_one.2 fun k => ?_, ?_⟩
    · cases hk : find? fs k with
      | none =>
        have hnot : k ∉ known fs ms := by
          intro hmem
          have hsome := (List.mem_filter.1 hmem).2
          rw [hk] at hsome
          cases hsome
        rw [List.count_eq_zero_of_not_mem hnot]
        exact Nat.zero_le 1
      | some f =>
        obtain ⟨hf, rfl⟩ := of_find? hk
        rw [count_known hkeys hf]
        exact (hfields f hf).1
    · rintro ⟨k?, c⟩ hm f hf
      obtain ⟨k, rfl, hk⟩ := Option.bind_eq_some_iff.1 hf
      obtain ⟨hmem, rfl⟩ := of_find? hk
      exact (hfields f hmem).2 c (Members.mem_under_iff.2 hm)

/-- In an array the first fields are there and the other ones are not; what is there is read like members. -/
theorem inOrder_eq {suffix : List (Typed σ)} {seen : List Text} {s : σ}
    (hfind : ∀ f ∈ suffix, find? fs f.field.key = some f) (hkeys : (keys suffix).Nodup)
    (hseen : ∀ f ∈ suffix, f.field.key ∉ seen) :
    inOrder suffix cs s
      = if cs.length ≤ suffix.length ∧ ∀ f ∈ suffix.drop cs.length, f.field.absence = .initial then
          ((((keys suffix).map some).zip cs).foldlM (change fs) (seen, s)).map Prod.snd
        else none := by
  induction suffix generalizing cs seen s with
  | nil =>
    cases cs with
    | nil => rfl
    | cons c cs => exact (if_neg fun h => Nat.not_succ_le_zero _ h.1).symm
  | cons f suffix ih =>
    rw [List.forall_mem_cons] at hfind hseen
    rw [keys, List.map_cons, List.nodup_cons] at hkeys
    cases cs with
    | nil =>
      have hrest : inOrder suffix [] s = _ := ih hfind.2 hkeys.2 hseen.2
      rw [inOrder, hrest]
      simp only [List.length_nil, Nat.zero_le, true_and, List.drop_zero, List.forall_mem_cons, List.zip_nil_right,
        List.foldlM_nil]
      by_cases habsence : f.field.absence = .initial
      · simp [habsence]
      · simp [habsence]
    | cons c cs =>
      have hchange : change fs (seen, s) (some f.field.key, c)
          = (f.take c).map fun g => (f.field.key :: seen, g s) := by
        simp [change, hfind.1, hseen.1]
      have hzip : ((keys (f :: suffix)).map some).zip (c :: cs)
          = (some f.field.key, c) :: ((keys suffix).map some).zip cs := rfl
      rw [inOrder, hzip, List.foldlM_cons, hchange]
      simp only [List.length_cons, Nat.succ_le_succ_iff, List.drop_succ_cons]
      cases f.take c with
      | none => simp
      | some g =>
        have hseen' : ∀ f' ∈ suffix, f'.field.key ∉ f.field.key :: seen := by
          intro f' hf' hmem
          rcases List.mem_cons.1 hmem with heq | hmem
          · exact hkeys.1 (heq ▸ List.mem_map_of_mem hf')
          · exact hseen.2 f' hf' hmem
        exact ih hfind.2 hkeys.2 hseen'

/-- Which fields are missing in an array. -/
theorem forall_missing_iff {P : Typed σ → Prop} (hkeys : (keys fs).Nodup) (hlength : cs.length ≤ fs.length) :
    (∀ f ∈ fs, Members.under (((keys fs).map some).zip cs) f.field.key = [] → P f)
      ↔ ∀ f ∈ fs.drop cs.length, P f := by
  induction fs generalizing cs with
  | nil => simp
  | cons f fs ih =>
    rw [keys, List.map_cons, List.nodup_cons] at hkeys
    cases cs with
    | nil => simp [Members.under]
    | cons c cs =>
      have hzip : ((keys (f :: fs)).map some).zip (c :: cs)
          = (some f.field.key, c) :: ((keys fs).map some).zip cs := rfl
      have hother : ∀ f' ∈ fs, Members.under (((keys (f :: fs)).map some).zip (c :: cs)) f'.field.key
          = Members.under (((keys fs).map some).zip cs) f'.field.key := by
        intro f' hf'
        have hne : some f.field.key ≠ some f'.field.key :=
          fun h => hkeys.1 (Option.some.inj h ▸ List.mem_map_of_mem hf')
        rw [hzip, Members.under_cons_of_ne hne]
      have hself : Members.under (((keys (f :: fs)).map some).zip (c :: cs)) f.field.key ≠ [] := by
        rw [hzip, Members.under_cons_self]
        exact List.cons_ne_nil _ _
      rw [List.forall_mem_cons, List.length_cons, List.drop_succ_cons, ← ih hkeys.2 (Nat.le_of_succ_le_succ hlength)]
      constructor
      · intro h f' hf' hmissing
        exact h.2 f' hf' ((hother f' hf').trans hmissing)
      · intro h
        exact ⟨fun hmissing => absurd hmissing hself, fun f' hf' hmissing => h f' hf' ((hother f' hf') ▸ hmissing)⟩

/-! ## Records -/

/-- What a record wants of a field. -/
def slot (f : Typed σ) : Slot := ⟨f.field.key, f.field.absence, fun c => (f.take c).isSome⟩

theorem keys_slots (fs : List (Typed σ)) : (fs.map slot).map (·.key) = keys fs := List.map_map

theorem slot_of {r : Reader α} {fits : Content → Bool} {value : Content → α} (key : String) (absence : Absence)
    (store : α → σ → σ) (h : TakesAs r fits value) :
    (Typed.of key absence store h).slot = ⟨key.toList, absence, fits⟩ := by
  have hfits : (fun c => ((Content.as fits value c).map store).isSome) = fits := by
    funext c
    rw [Option.isSome_map, Content.isSome_as]
  exact congrArg (Slot.mk key.toList absence) hfits

/-- The record that comes of a content. -/
def result (fs : List (Typed σ)) (initial : σ) (c : Content) : σ :=
  ((c.members? (keys fs)).getD []).foldl (apply fs) initial

theorem isRecord_iff (hkeys : (keys fs).Nodup) : c.isRecord (fs.map slot) = true
    ↔ ∃ ms, c.members? (keys fs) = some ms ∧ Accepts fs [] ms
      ∧ ∀ f ∈ fs, ms.under f.field.key = [] → c.mayMiss f.field.absence = true := by
  rw [Content.isRecord, keys_slots, Option.any_eq_true]
  refine exists_congr fun ms => and_congr_right' ?_
  rw [Bool.and_eq_true, List.all_eq_true, List.all_eq_true, accepts_iff_under hkeys, and_assoc]
  refine and_congr_right' ?_
  rw [List.forall_mem_map, ← forall₂_and]
  exact forall₂_congr fun f _ => Content.has_iff

/-- In an object a field is missing where its key has not occurred. -/
theorem under_eq_nil_iff (hkeys : (keys fs).Nodup) (hf : f ∈ fs) :
    ms.under f.field.key = [] ↔ f.field.key ∉ known fs ms := by
  rw [← List.length_eq_zero_iff, ← count_known hkeys hf, List.count_eq_zero]

theorem object_eq (hkeys : (keys fs).Nodup) (ms : Members) (initial : σ) :
    ((ms.foldlM (change fs) ([], initial)).bind fun q =>
        if fs.all fun f => f.field.absence != .refused || q.1.contains f.field.key then some q.2 else none)
      = Content.as (Content.isRecord (fs.map slot)) (result fs initial) (.object ms) := by
  have hcomplete : (fs.all fun f => f.field.absence != .refused || (known fs ms).reverse.contains f.field.key) = true
      ↔ ∀ f ∈ fs, ms.under f.field.key = [] → (Content.object ms).mayMiss f.field.absence = true := by
    rw [List.all_eq_true]
    refine forall₂_congr fun f hf => ?_
    rw [under_eq_nil_iff hkeys hf]
    cases f.field.absence <;> simp [Content.mayMiss]
  refine Option.ext fun s => ?_
  rw [Content.as_eq_some_iff, isRecord_iff hkeys, Option.bind_eq_some_iff]
  constructor
  · rintro ⟨q, hq, hresult⟩
    obtain ⟨haccepts, rfl⟩ := foldlM_change_eq_some_iff.1 hq
    obtain ⟨hall, hs⟩ := Option.ite_none_right_eq_some.1 hresult
    rw [List.append_nil] at hall
    exact ⟨⟨ms, rfl, haccepts, hcomplete.1 hall⟩, Option.some.inj hs⟩
  · rintro ⟨⟨_, ⟨rfl⟩, haccepts, hmissing⟩, rfl⟩
    refine ⟨_, foldlM_change_eq_some_iff.2 ⟨haccepts, rfl⟩, ?_⟩
    rw [List.append_nil, if_pos (hcomplete.2 hmissing)]
    rfl

theorem array_eq (hkeys : (keys fs).Nodup) (cs : List Content) (initial : σ) :
    inOrder fs cs initial = Content.as (Content.isRecord (fs.map slot)) (result fs initial) (.array cs) := by
  have hseen : ∀ f ∈ fs, f.field.key ∉ ([] : List Text) := fun _ _ => List.not_mem_nil
  rw [inOrder_eq (fun f hf => find?_key hkeys hf) hkeys hseen]
  have hlength : (keys fs).length = fs.length := List.length_map _
  have hmay : ∀ a : Absence, (Content.array cs).mayMiss a = true ↔ a = .initial := by
    intro a
    cases a <;> simp [Content.mayMiss]
  refine Option.ext fun s => ?_
  rw [Content.as_eq_some_iff, isRecord_iff hkeys]
  constructor
  · intro hsome
    obtain ⟨⟨hcs, hmissing⟩, hfold⟩ := Option.ite_none_right_eq_some.1 hsome
    obtain ⟨q, hq, rfl⟩ := Option.map_eq_some_iff.1 hfold
    obtain ⟨haccepts, rfl⟩ := foldlM_change_eq_some_iff.1 hq
    have hmembers : (Content.array cs).members? (keys fs) = some (((keys fs).map some).zip cs) :=
      if_pos (hlength.symm ▸ hcs)
    refine ⟨⟨_, hmembers, haccepts, ?_⟩, ?_⟩
    · simp only [hmay]
      exact (forall_missing_iff hkeys hcs).2 hmissing
    · rw [result, hmembers]
      rfl
  · rintro ⟨⟨ms, hmembers, haccepts, hmissing⟩, rfl⟩
    obtain ⟨hcs, hms⟩ := Option.ite_none_right_eq_some.1 hmembers
    obtain rfl := Option.some.inj hms
    simp only [hmay] at hmissing
    have hcs : cs.length ≤ fs.length := hlength ▸ hcs
    rw [if_pos ⟨hcs, (forall_missing_iff hkeys hcs).1 hmissing⟩,
      foldlM_change_eq_some_iff.2 ⟨haccepts, rfl⟩, result, hmembers]
    rfl

end Typed

/-- The text of an object is a brace and the members behind it, which are read one after the other. -/
theorem exists_members (fs : List (Typed σ)) {ms : Members} {w : Text} (h : Derives (.value (.object ms)) w)
    (initial : σ) (rest : Text) : ∃ body, w ++ rest = '\x7b' :: body ∧
      ((members (fs.map (·.field)) (body.length + 1) true [] initial).run body).toOption
        = (ms.foldlM (Typed.change fs) ([], initial)).map (·, rest) := by
  cases h with
  | @emptyObject gap hgap =>
    refine ⟨gap ++ '\x7d' :: rest, by simp, ?_⟩
    rw [ignoresBlanks_members _ _ _ _ _ gap _ hgap]
    exact congrArg Except.toOption (run_members_closing fs _ true ([], initial) rest)
  | @object gap w ms hgap hw =>
    have hlength := length_le_of_members hw
    have hn : ms.length < (gap ++ (w ++ '\x7d' :: rest)).length + 1 := by simp; omega
    exact ⟨gap ++ (w ++ '\x7d' :: rest), by simp, toOption_run_members fs hw true hn ([], initial) hgap rest⟩

/-- The fields of a record, each with a key of its own, and what they want. -/
structure Shape (σ : Type) where
  fields : List (Typed σ)
  slots : List Slot
  nodup : (Typed.keys fields).Nodup
  slots_eq : fields.map Typed.slot = slots

/-- The record that comes of a content. -/
def Shape.result (p : Shape σ) (initial : σ) (c : Content) : σ := Typed.result p.fields initial c

/-- A record is read in either form, if each field has what it takes. -/
theorem takesAs_record (p : Shape σ) (initial : σ) :
    TakesAs (record (p.fields.map (·.field)) initial) (Content.isRecord p.slots) (p.result initial) := by
  show TakesAs _ _ (Typed.result p.fields initial)
  rw [← p.slots_eq]
  intro c w gap rest h hgap hrest
  obtain ⟨d, hpeek, hd⟩ := run_peek_value h hgap rest
  rw [record, run_bind_of_ok hpeek]
  split
  · obtain ⟨ms, rfl⟩ := Content.eq_object_of_begins hd
    obtain ⟨body, htext, hmembers⟩ := exists_members p.fields h initial rest
    rw [htext, ← Typed.object_eq p.nodup]
    exact toOption_run_objectForm p.fields hmembers
  · obtain ⟨cs, rfl⟩ := Content.eq_array_of_begins hd
    obtain ⟨t, htext, helements⟩ := h.exists_elements rest
    rw [htext, ← Typed.array_eq p.nodup]
    exact toOption_run_arrayForm p.fields helements initial
  · rename_i hbrace hbracket
    rw [toOption_refuse]
    cases c with
    | object ms => exact absurd (eq_of_beq hd) hbrace
    | array cs => exact absurd (eq_of_beq hd) hbracket
    | _ => rfl

namespace Typed

variable {fs : List (Typed σ)} {f : Typed σ} {get : σ → β} {value : Content → β}

/-- What a field takes is found in a part of the record. -/
def Stores (f : Typed σ) (get : σ → β) (value : Content → β) : Prop :=
  ∀ c g, f.take c = some g → ∀ s, get (g s) = value c

/-- A part of the record stays as it was. -/
def Leaves (f : Typed σ) (get : σ → β) : Prop := ∀ c g, f.take c = some g → ∀ s, get (g s) = get s

theorem stores_of {r : Reader α} {fits : Content → Bool} {taken : Content → α} {key : String} {absence : Absence}
    {store : α → σ → σ} {h : TakesAs r fits taken} (hstore : ∀ c s, get (store (taken c) s) = value c) :
    (Typed.of key absence store h).Stores get value := by
  intro c g hg s
  obtain ⟨a, ha, rfl⟩ := Option.map_eq_some_iff.1 hg
  obtain ⟨-, rfl⟩ := Content.as_eq_some_iff.1 ha
  exact hstore c s

theorem leaves_of {r : Reader α} {take : Content → Option α} {key : String} {absence : Absence} {store : α → σ → σ}
    {h : Takes r take} (hstore : ∀ a s, get (store a s) = get s) : (Typed.of key absence store h).Leaves get := by
  intro c g hg s
  obtain ⟨a, -, rfl⟩ := Option.map_eq_some_iff.1 hg
  exact hstore a s

theorem get_foldl_apply (hfind : find? fs f.field.key = some f) (hstores : f.Stores get value)
    (hleaves : ∀ g ∈ fs, g.field.key ≠ f.field.key → g.Leaves get) {ms : Members}
    (hlength : (ms.under f.field.key).length ≤ 1) (hfits : ∀ c ∈ ms.under f.field.key, (f.take c).isSome) (s : σ) :
    get (ms.foldl (apply fs) s) = ((ms.under f.field.key).head?.map value).getD (get s) := by
  induction ms generalizing s with
  | nil => rfl
  | cons m ms ih =>
    obtain ⟨k?, c⟩ := m
    rw [List.foldl_cons]
    by_cases hk : k? = some f.field.key
    · -- the field occurs here and not in the members behind
      subst hk
      rw [Members.under_cons_self] at hlength hfits ⊢
      have hnone : Members.under ms f.field.key = [] :=
        List.length_eq_zero_iff.1 (Nat.le_zero.1 (Nat.le_of_succ_le_succ hlength))
      obtain ⟨g, hg⟩ := Option.isSome_iff_exists.1 (hfits c List.mem_cons_self)
      have happly : apply fs s (some f.field.key, c) = g s := by simp [apply, hfind, hg]
      have hlength' : (Members.under ms f.field.key).length ≤ 1 := by
        rw [hnone]
        exact Nat.zero_le 1
      have hfits' : ∀ c ∈ Members.under ms f.field.key, (f.take c).isSome := by
        rw [hnone]
        exact List.forall_mem_nil _
      rw [ih hlength' hfits', hnone, happly]
      exact hstores c g hg s
    · rw [Members.under_cons_of_ne hk] at hlength hfits ⊢
      have hsame : get (apply fs s (k?, c)) = get s := by
        rw [apply]
        cases hchange : (k?.bind (find? fs)).bind fun g => g.take c with
        | none => rfl
        | some g =>
          obtain ⟨f', hf', htake⟩ := Option.bind_eq_some_iff.1 hchange
          obtain ⟨k, rfl, hk'⟩ := Option.bind_eq_some_iff.1 hf'
          obtain ⟨hmem, rfl⟩ := of_find? hk'
          exact hleaves f' hmem (fun heq => hk (congrArg some heq)) c g htake s
      rw [ih hlength hfits, hsame]

end Typed

/-- What a field stored is what stands under its key. -/
theorem Shape.get_result (p : Shape σ) {f : Typed σ} (hf : f ∈ p.fields) {key : String}
    (hkey : f.field.key = key.toList) (get : σ → β) (value : Content → β) (hstores : f.Stores get value)
    (hleaves : ∀ g ∈ p.fields, g.field.key ≠ f.field.key → g.Leaves get) {initial : σ}
    (hmissing : get initial = value .null) {c : Content} (hc : c.isRecord p.slots = true) :
    get (p.result initial c) = value (c.get p.slots key) := by
  rw [← p.slots_eq] at hc ⊢
  obtain ⟨ms, hmembers, haccepts, -⟩ := (Typed.isRecord_iff p.nodup).1 hc
  obtain ⟨hlength, hfits⟩ := ((Typed.accepts_iff_under p.nodup).1 haccepts).2 f hf
  have hget := Typed.get_foldl_apply (Typed.find?_key p.nodup hf) hstores hleaves hlength hfits initial
  rw [result, Typed.result, Content.get, Typed.keys_slots, hmembers, Option.getD_some, hget, hkey, hmissing]
  cases Members.under ms key.toList <;> rfl

/-! ## Records with a single field -/

/-- A record that is made of its only field. -/
theorem takesAs_single (key : String) (absence : Absence) {store : α → σ → σ} (make : α → σ)
    (hstore : ∀ a s, store a s = make a) {r : Reader α} {fits : Content → Bool} {value : Content → α}
    (h : TakesAs r fits value) {initial : σ} (hmissing : initial = make (value .null)) :
    TakesAs (record [.of key absence r store] initial) (Content.isRecord [⟨key.toList, absence, fits⟩])
      fun c => make (value (c.get [⟨key.toList, absence, fits⟩] key)) := by
  let p : Shape σ :=
    { fields := [.of key absence store h]
      slots := [⟨key.toList, absence, fits⟩]
      nodup := List.nodup_singleton _
      slots_eq := congrArg (fun s => [s]) (Typed.slot_of key absence store h) }
  refine (takesAs_record p initial).congr fun c hc => ?_
  exact p.get_result List.mem_cons_self rfl id (fun v => make (value v)) (Typed.stores_of fun _ s => hstore _ s)
    (List.forall_mem_singleton.2 fun hne => absurd rfl hne) hmissing hc

end Watermark.Json
