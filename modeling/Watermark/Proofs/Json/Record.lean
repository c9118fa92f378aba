import Watermark.Json.Value
import Watermark.Proofs.Json.Float
import Watermark.Proofs.Json.Quoted

/-!
# Records are read as they were written

A record is written as an object with each field once. A `Layout` is the notation: the blanks between the parts. Under
each layout the members are read one after the other, each making its change (`run_members`, by induction on the
members), so that a record is read as its fields are (`reads_record`).

* `reads_text`, `reads_bool`, `reads_int64`, `reads_uint64`: single values come back;
* `compact_object`, `prettyAt_object`: the two notations are layouts;
* `reads_record`: reading an object with every field;
* `readAll_keeps`: what every field keeps, a record keeps, whatever its text is.
-/

namespace Watermark.Json

/-! ## Single values -/

/-- Text is read as it was written. -/
theorem reads_text (t : Text) : Reads text (Quoted.encode t) (.ok t) := by
  intro gap rest hgap _
  rw [Quoted.encode_append, text, run_bind_of_ok (run_peek hgap (by decide))]
  exact Quoted.run_read_encode t rest

/-- A flag is read as it was written. -/
theorem reads_bool (b : Bool) : Reads bool (Value.boolText b) (.ok b) := by
  intro gap rest hgap _
  cases b with
  | true =>
    have hpeek : peek.run (gap ++ ("true".toList ++ rest)) = .ok ('t', "true".toList ++ rest) :=
      run_peek hgap (by decide)
    exact (run_bind_of_ok hpeek).trans (run_bind_of_ok (run_word "true".toList rest))
  | false =>
    have hpeek : peek.run (gap ++ ("false".toList ++ rest)) = .ok ('f', "false".toList ++ rest) :=
      run_peek hgap (by decide)
    exact (run_bind_of_ok hpeek).trans (run_bind_of_ok (run_word "false".toList rest))

/-- A whole number within its bounds is read as it was written, if 64 bits can hold it. -/
theorem reads_within {low high n : Int} (hlow : low ≤ n) (hhigh : n ≤ high) (hmin : Int64.minValue.toInt ≤ n)
    (hlimit : n < significandLimit) : Reads (within low high) (Text.ofInt n) (.ok n) := by
  intro gap rest hgap hrest
  have hnumeral : numeral.run (gap ++ (Text.ofInt n ++ rest)) = .ok (.whole n, rest) := by
    have h := reads_numeral (Token.wellFormed_ofInt n).spells gap rest hgap hrest
    rw [Token.text_ofInt, Token.value_ofInt hmin hlimit] at h
    exact h
  have hsome : Numeral.within? low high (.whole n) = some n := if_pos ⟨hlow, hhigh⟩
  rw [within, run_bind_of_ok hnumeral, hsome]
  rfl

/-- A whole number of 64 bits is read as it was written. -/
theorem reads_int64 (n : Int64) : Reads int64 (Text.ofInt n.toInt) (.ok n) := by
  have hlow : Int64.minValue.toInt ≤ n.toInt := Int64.le_iff_toInt_le.1 (Int64.minValue_le n)
  have hhigh : n.toInt ≤ Int64.maxValue.toInt := Int64.le_iff_toInt_le.1 (Int64.le_maxValue n)
  have hlimit : n.toInt < significandLimit := Int.lt_of_le_of_lt hhigh (by decide)
  have h := (reads_within hlow hhigh hlow hlimit).map Int64.ofInt
  rw [Except.map, Int64.ofInt_toInt] at h
  exact h

/-- The same without a sign. -/
theorem reads_uint64 (n : UInt64) : Reads uint64 (Text.ofInt n.toNat) (.ok n) := by
  have hlimit : (n.toNat : Int) < significandLimit := Int.ofNat_lt.2 n.toNat_lt_size
  have hhigh : (n.toNat : Int) ≤ UInt64.size - 1 := Int.le_sub_one_of_lt hlimit
  have hmin : Int64.minValue.toInt ≤ n.toNat := Int.le_trans (by decide) (Int.natCast_nonneg _)
  have h := (reads_within (Int.natCast_nonneg _) hhigh hmin hlimit).map fun m => UInt64.ofNat m.toNat
  rw [Except.map, Int.toNat_natCast, UInt64.ofNat_toNat] at h
  exact h

/-! ## Objects with every field -/

/-- The blanks that a notation puts between the parts of an object. -/
structure Layout where
  /-- Before a key. -/
  gap : Text
  /-- Behind a colon. -/
  colon : Text
  /-- Before the closing brace. -/
  last : Text
  gap_blank : gap.All isBlank
  colon_blank : colon.All isBlank
  last_blank : last.All isBlank

/-- No blanks at all. -/
def Layout.compact : Layout := ⟨[], [], [], nofun, nofun, nofun⟩

theorem blank_newLine (level : Nat) : (Value.newLine level).All isBlank :=
  .cons (by decide) fun c hc => by
    rw [List.eq_of_mem_replicate hc]
    rfl

/-- A line for each member of an object at a level. -/
def Layout.indented (level : Nat) : Layout :=
  ⟨Value.newLine (level + 1), [' '], Value.newLine level, blank_newLine _, by decide, blank_newLine _⟩

/-- A line for each member of an object that is not part of another one. -/
def Layout.pretty : Layout := .indented 0

/-- A field together with a text of its value and with what is read there. -/
structure Member (σ : Type) where
  field : Field σ
  text : Text
  change : Except Fault (σ → σ)
  reads : Reads field.read text change

variable {σ α : Type}

/-- A field whose value is read by `r`. -/
def Member.of (key : String) (absence : Absence) {r : Reader α} (store : α → σ → σ) {w : Text} {v : Except Fault α}
    (h : Reads r w v) : Member σ :=
  ⟨.of key absence r store, w, v.map store, h.map store⟩

namespace Layout

variable (l : Layout)

/-- Behind a member come a comma and the next one, or the end of the object. -/
def separator (first : Bool) : Text := if first then [] else [',']

/-- Members as they stand behind an opening brace, or behind a member, and the closing brace. -/
def members : Bool → List (Member σ) → Text
  | _, [] => l.last ++ ['\x7d']
  | first, m :: ms =>
    separator first ++ (l.gap ++ (Quoted.encode m.field.key ++ ':' :: (l.colon ++ (m.text ++ members false ms))))

theorem run_nextKey_none (first : Bool) (rest : Text) :
    (nextKey first).run (l.last ++ '\x7d' :: rest) = .ok (none, rest) := by
  rw [nextKey, run_bind_of_ok (run_peek l.last_blank (by decide))]
  rfl

theorem run_nextKey_some (first : Bool) (k rest : Text) :
    (nextKey first).run (separator first ++ (l.gap ++ (Quoted.encode k ++ rest))) = .ok (some k, rest) := by
  have hkey : ∀ gap : Text, gap.All isBlank →
      (do expect '"'; return some (← Quoted.read) : Reader (Option Text)).run (gap ++ (Quoted.encode k ++ rest))
        = .ok (some k, rest) := by
    intro gap hgap
    rw [Quoted.encode_append, run_bind_of_ok (run_expect hgap (by decide)),
      run_bind_of_ok (Quoted.run_read_encode k rest)]
    rfl
  cases first with
  | true =>
    have hpeek : peek.run (l.gap ++ (Quoted.encode k ++ rest)) = .ok ('"', Quoted.encode k ++ rest) := by
      rw [Quoted.encode_append]
      exact run_peek l.gap_blank (by decide)
    show (nextKey true).run (l.gap ++ (Quoted.encode k ++ rest)) = _
    rw [nextKey, run_bind_of_ok hpeek]
    exact hkey [] nofun
  | false =>
    have hpeek : peek.run (',' :: (l.gap ++ (Quoted.encode k ++ rest)))
        = .ok (',', ',' :: (l.gap ++ (Quoted.encode k ++ rest))) := run_peek_cons (by decide) _
    have hcomma : (expect ',').run (',' :: (l.gap ++ (Quoted.encode k ++ rest)))
        = .ok ((), l.gap ++ (Quoted.encode k ++ rest)) := run_expect_cons (by decide) _
    show (nextKey false).run (',' :: (l.gap ++ (Quoted.encode k ++ rest))) = _
    rw [nextKey, run_bind_of_ok hpeek]
    show (expect ',' >>= fun _ => (do expect '"'; return some (← Quoted.read))).run _ = _
    rw [run_bind_of_ok hcomma]
    exact hkey l.gap l.gap_blank

theorem ends_members (ms : List (Member σ)) (rest : Text) : Ends (l.members false ms ++ rest) := by
  cases ms with
  | nil =>
    rw [members, List.append_assoc]
    exact ends_append l.last_blank (ends_cons (by decide))
  | cons m ms => exact ends_cons (by decide)

/-- A member takes a character. -/
theorem length_le_members (first : Bool) (ms : List (Member σ)) : ms.length ≤ (l.members first ms).length := by
  induction ms generalizing first with
  | nil => exact Nat.zero_le _
  | cons m ms ih =>
    have := ih false
    simp only [members, List.length_append, List.length_cons]
    omega

end Layout

/-! ## The two notations -/

/-- A member without the blanks before it. -/
def Layout.member (l : Layout) (k w : Text) : Text := Quoted.encode k ++ ':' :: (l.colon ++ w)

/-- Members and the closing brace, with a comma between each two. -/
theorem Layout.members_eq (l : Layout) (first : Bool) {ms : List (Member σ)} (h : ms ≠ []) :
    l.members first ms = separator first ++ (l.gap ++ (List.intercalate (',' :: l.gap)
      (ms.map fun m => l.member m.field.key m.text) ++ (l.last ++ ['\x7d']))) := by
  induction ms generalizing first with
  | nil => exact absurd rfl h
  | cons m ms ih =>
    cases ms with
    | nil => simp [members, member]
    | cons m' ms =>
      have hjoin : List.intercalate (',' :: l.gap) ((m :: m' :: ms).map fun m => l.member m.field.key m.text)
          = l.member m.field.key m.text ++ ',' :: l.gap
            ++ List.intercalate (',' :: l.gap) ((m' :: ms).map fun m => l.member m.field.key m.text) :=
        List.intercalate_cons_cons
      rw [members, ih false (List.cons_ne_nil _ _), hjoin]
      simp [member, separator]

theorem Value.compactMembers_eq (vs : List (Text × Value)) :
    compactMembers vs = vs.map fun v => Layout.compact.member v.1 v.2.compact := by
  induction vs with
  | nil => rfl
  | cons v vs ih =>
    rw [compactMembers, ih]
    rfl

theorem Value.prettyMembers_eq (level : Nat) (vs : List (Text × Value)) :
    prettyMembers (level + 1) vs = vs.map fun v => (Layout.indented level).member v.1 (v.2.prettyAt (level + 1)) := by
  induction vs with
  | nil => rfl
  | cons v vs ih =>
    rw [prettyMembers, ih]
    simp [Layout.member, Layout.indented]

variable {ms : List (Member σ)} {vs : List (Text × Value)}

theorem compact_object (hne : ms ≠ [])
    (h : ms.map (fun m => (m.field.key, m.text)) = vs.map fun v => (v.1, v.2.compact)) :
    (Value.object vs).compact = '\x7b' :: Layout.compact.members true ms := by
  have hparts := congrArg (List.map fun p => Layout.compact.member p.1 p.2) h
  rw [List.map_map, List.map_map] at hparts
  rw [Value.compact, Value.compactMembers_eq, Layout.members_eq _ _ hne]
  simp only [Function.comp_def] at hparts
  rw [hparts]
  rfl

theorem prettyAt_object (level : Nat) (hne : ms ≠ [])
    (h : ms.map (fun m => (m.field.key, m.text)) = vs.map fun v => (v.1, v.2.prettyAt (level + 1))) :
    (Value.object vs).prettyAt level = '\x7b' :: (Layout.indented level).members true ms := by
  have hparts := congrArg (List.map fun p => (Layout.indented level).member p.1 p.2) h
  rw [List.map_map, List.map_map] at hparts
  simp only [Function.comp_def] at hparts
  rw [Value.prettyAt, Value.prettyMembers_eq, ← hparts, Layout.members_eq _ _ hne]
  obtain ⟨m, ms, rfl⟩ := List.exists_cons_of_ne_nil hne
  rw [List.map_cons, Value.block]
  · simp [Layout.separator, Layout.indented]
  · exact List.cons_ne_nil _ _

theorem pretty_object (hne : ms ≠ [])
    (h : ms.map (fun m => (m.field.key, m.text)) = vs.map fun v => (v.1, v.2.prettyAt 1)) :
    (Value.object vs).pretty = '\x7b' :: Layout.pretty.members true ms :=
  prettyAt_object 0 hne h

/-! ## Reading an object -/

/-- What members make of a record, one after the other. -/
def Member.changeAll : List (Member σ) → σ → Except Fault σ
  | [], s => .ok s
  | m :: ms, s => do
    let change ← m.change
    changeAll ms (change s)

/-- What has a key of its own is found by it. -/
theorem find?_key {key : α → Text} {as : List α} (hkeys : (as.map key).Nodup) {a : α} (ha : a ∈ as) :
    (as.find? fun b => key b == key a) = some a := by
  induction as with
  | nil => cases ha
  | cons b as ih =>
    rw [List.map_cons, List.nodup_cons] at hkeys
    rcases List.mem_cons.1 ha with rfl | hmem
    · simp
    · have hne : key b ≠ key a := fun heq => hkeys.1 (heq ▸ List.mem_map_of_mem hmem)
      rw [List.find?_cons_of_neg (by simpa using hne)]
      exact ih hkeys.2 hmem

/-- Members with keys of their own are read one after the other. -/
theorem run_members {fields : List (Field σ)} (hkeys : (fields.map (·.key)).Nodup) (l : Layout)
    (first : Bool) (rest : Text)
    {ms : List (Member σ)} {n : Nat} {seen : List Text} {s : σ} (hn : ms.length < n)
    (hms : ∀ m ∈ ms, m.field ∈ fields) (hnodup : (ms.map (·.field.key)).Nodup)
    (hseen : ∀ m ∈ ms, m.field.key ∉ seen) :
    (members fields n first seen s).run (l.members first ms ++ rest)
      = (Member.changeAll ms s).map fun s' => (((ms.map (·.field.key)).reverse ++ seen, s'), rest) := by
  induction ms generalizing n first seen s with
  | nil =>
    obtain ⟨n, rfl⟩ := Nat.exists_eq_succ_of_ne_zero (Nat.ne_zero_of_lt hn)
    have htext : l.members first ([] : List (Member σ)) ++ rest = l.last ++ '\x7d' :: rest := by simp [Layout.members]
    rw [htext, members, run_bind_of_ok (l.run_nextKey_none first rest)]
    rfl
  | cons m ms ih =>
    obtain ⟨n, rfl⟩ := Nat.exists_eq_succ_of_ne_zero (Nat.ne_zero_of_lt hn)
    rw [List.map_cons, List.nodup_cons] at hnodup
    have hfield := find?_key hkeys (hms m List.mem_cons_self)
    have hnew : seen.contains m.field.key = false := by
      rw [List.contains_eq_mem]
      exact decide_eq_false (hseen m List.mem_cons_self)
    have htext : l.members first (m :: ms) ++ rest
        = Layout.separator first ++ (l.gap ++ (Quoted.encode m.field.key
            ++ ':' :: (l.colon ++ (m.text ++ (l.members false ms ++ rest))))) := by simp [Layout.members]
    have hread := m.reads l.colon (l.members false ms ++ rest) l.colon_blank (l.ends_members ms rest)
    rw [htext, members, run_bind_of_ok (l.run_nextKey_some first m.field.key _)]
    simp only [hfield, hnew]
    rw [if_neg Bool.false_ne_true, run_bind_of_ok (run_expect_cons (by decide) _), Member.changeAll]
    cases hchange : m.change with
    | error e =>
      rw [hchange] at hread
      rw [run_bind_of_error hread]
      rfl
    | ok change =>
      rw [hchange] at hread
      rw [run_bind_of_ok hread]
      have hrest : ∀ m' ∈ ms, m'.field.key ∉ m.field.key :: seen := by
        intro m' hm' hmem
        rcases List.mem_cons.1 hmem with heq | hmem
        · exact hnodup.1 (heq ▸ List.mem_map_of_mem (f := fun m' : Member σ => m'.field.key) hm')
        · exact hseen m' (List.mem_cons_of_mem _ hm') hmem
      have hshort : ms.length < n := by
        rw [List.length_cons] at hn
        omega
      rw [ih false hshort (fun m' hm' => hms m' (List.mem_cons_of_mem _ hm')) hnodup.2 hrest]
      simp [bind, Except.bind]

/-- A record is read from an object that has each of its fields once. -/
theorem reads_record {ms : List (Member σ)} (hnodup : (ms.map (·.field.key)).Nodup) (l : Layout) (initial : σ) :
    Reads (record (ms.map (·.field)) initial) ('\x7b' :: l.members true ms) (Member.changeAll ms initial) := by
  intro gap rest hgap _
  have hkeys : ((ms.map (·.field)).map (·.key)).Nodup := by rwa [List.map_map]
  have hlength : ms.length < (l.members true ms ++ rest).length + 1 := by
    rw [List.length_append]
    have := l.length_le_members true ms
    omega
  have hmembers := run_members hkeys l true rest (s := initial) hlength (fun m hm => List.mem_map_of_mem hm) hnodup
    (fun _ _ => List.not_mem_nil)
  rw [List.cons_append, record, run_bind_of_ok (run_peek hgap (by decide))]
  show (objectForm (ms.map (·.field)) initial).run (l.members true ms ++ rest) = _
  have hget : (get : Reader Text).run (l.members true ms ++ rest)
    = .ok (l.members true ms ++ rest, l.members true ms ++ rest) := rfl
  rw [objectForm, run_bind_of_ok hget]
  cases hall : Member.changeAll ms initial with
  | error e =>
    rw [hall] at hmembers
    rw [run_bind_of_error hmembers]
    rfl
  | ok s =>
    rw [hall] at hmembers
    rw [run_bind_of_ok hmembers]
    have hcomplete : ((ms.map (·.field)).all fun f =>
        f.absence != .refused ||
          (((ms.map fun m : Member σ => m.field.key).reverse ++ []).contains f.key)) = true := by
      rw [List.all_eq_true]
      intro f hf
      obtain ⟨m, hm, rfl⟩ := List.mem_map.1 hf
      rw [Bool.or_eq_true]
      refine .inr (List.contains_iff_mem.2 ?_)
      rw [List.append_nil, List.mem_reverse]
      exact List.mem_map_of_mem hm
    dsimp only
    rw [if_pos hcomplete]
    rfl

/-! ## What every field keeps -/

/-- Whatever the field reads, its change keeps `P`. -/
def Field.Keeps (P : σ → Prop) (f : Field σ) : Prop :=
  ∀ t rest change, f.read.run t = .ok (change, rest) → ∀ s, P s → P (change s)

theorem Field.Keeps.of {P : σ → Prop} {key : String} {absence : Absence} {r : Reader α} {store : α → σ → σ}
    (h : ∀ t rest a, r.run t = .ok (a, rest) → ∀ s, P s → P (store a s)) :
    (Field.of key absence r store).Keeps P := by
  intro t rest change hread
  obtain ⟨a, ha, rfl⟩ := run_map_eq_ok_iff.1 hread
  exact h t rest a ha

section Keeps

variable {P : σ → Prop} {fields : List (Field σ)}

theorem members_keeps (hfields : ∀ f ∈ fields, f.Keeps P) {n : Nat} {first : Bool} {seen keys : List Text}
    {s s' : σ} {t rest : Text} (hs : P s) (h : (members fields n first seen s).run t = .ok ((keys, s'), rest)) :
    P s' := by
  induction n generalizing first seen s t with
  | zero => cases h
  | succ n ih =>
    obtain ⟨k, u, -, h⟩ := run_bind_eq_ok_iff.1 h
    split at h
    · cases h
      exact hs
    · split at h
      · obtain ⟨_, u, -, h⟩ := run_bind_eq_ok_iff.1 h
        obtain ⟨_, u, -, h⟩ := run_bind_eq_ok_iff.1 h
        exact ih hs h
      · rename_i f hf
        dsimp only at h
        split at h
        · obtain ⟨_, u, hthrow, -⟩ := run_bind_eq_ok_iff.1 h
          cases hthrow
        · obtain ⟨_, u, -, h⟩ := run_bind_eq_ok_iff.1 h
          obtain ⟨change, v, hchange, h⟩ := run_bind_eq_ok_iff.1 h
          exact ih (hfields f (List.mem_of_find?_eq_some hf) _ _ change hchange s hs) h

theorem arrayForm_keeps (hfields : ∀ f ∈ fields, f.Keeps P) {first : Bool} {s s' : σ} {t rest : Text} (hs : P s)
    (h : (arrayForm fields first s).run t = .ok (s', rest)) : P s' := by
  induction fields generalizing first s t with
  | nil =>
    obtain ⟨_, u, -, h⟩ := run_bind_eq_ok_iff.1 h
    cases h
    exact hs
  | cons f fields ih =>
    have hrest : ∀ g ∈ fields, g.Keeps P := fun g hg => hfields g (List.mem_cons_of_mem _ hg)
    obtain ⟨more, u, -, h⟩ := run_bind_eq_ok_iff.1 h
    split at h
    · obtain ⟨change, v, hchange, h⟩ := run_bind_eq_ok_iff.1 h
      exact ih hrest (hfields f List.mem_cons_self _ _ change hchange s hs) h
    · split at h
      · exact ih hrest hs h
      · cases h

/-- A record that is read keeps what its fields keep, in either form. -/
theorem record_keeps (hfields : ∀ f ∈ fields, f.Keeps P) {initial s : σ} {t rest : Text} (hinitial : P initial)
    (h : (record fields initial).run t = .ok (s, rest)) : P s := by
  obtain ⟨c, u, -, h⟩ := run_bind_eq_ok_iff.1 h
  split at h
  · obtain ⟨_, u, -, h⟩ := run_bind_eq_ok_iff.1 h
    obtain ⟨_, u, -, h⟩ := run_bind_eq_ok_iff.1 h
    obtain ⟨⟨keys, s'⟩, v, hmembers, h⟩ := run_bind_eq_ok_iff.1 h
    dsimp only at h
    split at h
    · cases h
      exact members_keeps hfields hinitial hmembers
    · cases h
  · obtain ⟨_, u, -, h⟩ := run_bind_eq_ok_iff.1 h
    exact arrayForm_keeps hfields hinitial h
  · exact absurd h (run_refuse _ _)

theorem readAll_keeps (hfields : ∀ f ∈ fields, f.Keeps P) {initial s : σ} {t : Text} (hinitial : P initial)
    (h : readAll (record fields initial) t = .ok s) : P s := by
  obtain ⟨rest, -, hrun⟩ := run_of_readAll h
  exact record_keeps hfields hinitial hrun

end Keeps

end Watermark.Json
