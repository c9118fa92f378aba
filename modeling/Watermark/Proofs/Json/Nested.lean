import Watermark.Proofs.Json.Record

/-!
# Values inside values

A value is written in one of two styles, without blanks or on lines of its own at a level; what it holds is written in
the same style, one level deeper (`Style.inner`). `Returns r v a` says that `r` reads `a` where `v` is written in any
style. So it passes from the fields of a record to the record (`returns_record`), however deep records stand in each
other.

* `returns_text`, `returns_bool`, `returns_uint64`, `returns_ofOption`, `returns_variant`: single values;
* `Style.write_object`: an object in any style has the layout of the style;
* `returns_record`: a record that is written field by field.
-/

namespace Watermark.Json

/-- How a value is written. -/
inductive Style where
  | compact
  /-- A line for each part, at a level. -/
  | lines (level : Nat)

namespace Style

def write : Style → Value → Text
  | compact, v => v.compact
  | lines level, v => v.prettyAt level

/-- How the parts of a value are written. -/
def inner : Style → Style
  | compact => compact
  | lines level => lines (level + 1)

/-- The blanks in an object. -/
def layout : Style → Layout
  | compact => .compact
  | lines level => .indented level

variable {σ : Type}

/-- Only lists and objects are written in more than one way. -/
theorem write_single (n : Style) (v : Value) (h : ∀ level, v.prettyAt level = v.compact) : n.write v = v.compact := by
  cases n with
  | compact => rfl
  | lines level => exact h level

theorem write_object (n : Style) {ms : List (Member σ)} {vs : List (Text × Value)} (hne : ms ≠ [])
    (h : ms.map (fun m => (m.field.key, m.text)) = vs.map fun v => (v.1, n.inner.write v.2)) :
    n.write (.object vs) = '\x7b' :: n.layout.members true ms := by
  cases n with
  | compact => exact compact_object hne h
  | lines level => exact prettyAt_object level hne h

end Style

variable {σ α : Type}

/-- `r` reads `a` where `v` is written. -/
def Returns (r : Reader α) (v : Value) (a : α) : Prop := ∀ n : Style, Reads r (n.write v) (.ok a)

/-! ## Single values -/

theorem Returns.of_single {r : Reader α} {v : Value} {a : α} (hv : ∀ level, v.prettyAt level = v.compact)
    (h : Reads r v.compact (.ok a)) : Returns r v a := fun n => n.write_single v hv ▸ h

theorem returns_text (t : Text) : Returns text (.text t) t := .of_single (fun _ => rfl) (reads_text t)

theorem returns_bool (b : Bool) : Returns bool (.bool b) b := .of_single (fun _ => rfl) (reads_bool b)

theorem returns_uint64 (n : UInt64) : Returns uint64 (.whole n.toNat) n := .of_single (fun _ => rfl) (reads_uint64 n)

theorem reads_null (r : Reader α) : Reads (optional r) "null".toList (.ok none) := by
  intro gap rest hgap _
  have hpeek : peek.run (gap ++ ("null".toList ++ rest)) = .ok ('n', "null".toList ++ rest) :=
    run_peek hgap (by decide)
  exact (run_bind_of_ok hpeek).trans (run_bind_of_ok (run_word "null".toList rest))

/-- A text that may be missing. -/
theorem returns_ofOption (t : Option Text) : Returns (optional text) (.ofOption t) t := by
  cases t with
  | none => exact .of_single (fun _ => rfl) (reads_null text)
  | some t =>
    refine .of_single (fun _ => rfl) fun gap rest hgap hrest => ?_
    have hsome := (reads_text t).map some [] rest .nil hrest
    rw [List.nil_append] at hsome
    have hpeek : peek.run (gap ++ (Quoted.encode t ++ rest)) = .ok ('"', Quoted.encode t ++ rest) := by
      rw [Quoted.encode_append]
      exact run_peek hgap (by decide)
    exact (run_bind_of_ok hpeek).trans hsome

/-- A member of a list by its name. -/
theorem returns_variant {name : α → Text} {all : List α} {a : α} (h : (all.find? fun b => name b == name a) = some a) :
    Returns (variant name all) (.text (name a)) a := by
  refine .of_single (fun _ => rfl) fun gap rest hgap hrest => ?_
  have hpeek : peek.run (gap ++ (Quoted.encode (name a) ++ rest)) = .ok ('"', Quoted.encode (name a) ++ rest) := by
    rw [Quoted.encode_append]
    exact run_peek hgap (by decide)
  have htext := reads_text (name a) [] rest .nil hrest
  rw [List.nil_append] at htext
  refine (run_bind_of_ok hpeek).trans ((run_bind_of_ok htext).trans ?_)
  rw [h]
  rfl

/-! ## Records -/

/-- A field of a record together with the value that is written for it. -/
structure WrittenField (σ : Type) where
  field : Field σ
  value : Value
  /-- What the value makes of the record. -/
  change : σ → σ
  returns : Returns field.read value change

namespace WrittenField

/-- A field whose value is read by `r`. -/
def of (key : String) (absence : Absence) {r : Reader α} (store : α → σ → σ) {v : Value} {a : α} (h : Returns r v a) :
    WrittenField σ :=
  ⟨.of key absence r store, v, store a, fun n => (h n).map store⟩

/-- The member that is written for a field of a record. -/
def member (n : Style) (p : WrittenField σ) : Member σ := ⟨p.field, n.inner.write p.value, .ok p.change, p.returns n.inner⟩

/-- What the values make of a record. -/
def changeAll (ps : List (WrittenField σ)) (s : σ) : σ := ps.foldl (fun s p => p.change s) s

theorem changeAll_map_member (n : Style) (ps : List (WrittenField σ)) (s : σ) :
    Member.changeAll (ps.map (member n)) s = .ok (changeAll ps s) := by
  induction ps generalizing s with
  | nil => rfl
  | cons p ps ih => exact ih (p.change s)

end WrittenField

/-- A record is read from the object that was written for it. -/
theorem returns_record (ps : List (WrittenField σ)) (hne : ps ≠ []) (hnodup : (ps.map (·.field.key)).Nodup) (initial : σ) :
    Returns (record (ps.map (·.field)) initial) (.object (ps.map fun p => (p.field.key, p.value)))
      (WrittenField.changeAll ps initial) := by
  intro n
  have hkeys : ((ps.map (WrittenField.member n)).map (·.field.key)).Nodup := by rwa [List.map_map]
  have hfields : (ps.map (WrittenField.member n)).map (·.field) = ps.map (·.field) := by simp [WrittenField.member]
  have hne' : ps.map (WrittenField.member n) ≠ [] := by simpa using hne
  rw [n.write_object hne' (by simp [WrittenField.member]), ← hfields, ← WrittenField.changeAll_map_member n]
  exact reads_record hkeys n.layout initial

/-- A text that is a written value and nothing else. -/
theorem Returns.readAll {r : Reader α} {v : Value} {a : α} (h : Returns r v a) (n : Style) :
    readAll r (n.write v) = .ok a := (h n).readAll

end Watermark.Json
