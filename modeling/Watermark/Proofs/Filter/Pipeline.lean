import Watermark.Filter.Chain
import Watermark.Proofs.Characters

/-!
# Reading a pipeline back

The text of a chain keeps its stages apart, since an expression holds no semicolon and no bracket
(`Filter.plain_expression`). So the text can be read back: split at the semicolons, each piece gives the names of
the streams that its stage takes, the expression and the name of the stream that leaves (`Chain.read_pipeline`).
-/

namespace Watermark

/-! ## The characters of an expression -/

open Text (All Plain isPlain isInert plain_ofNat plain_ofInt)

theorem Ratio.plain_expression (r : Ratio) : Plain r.expression := by
  unfold expression
  split
  · exact plain_ofNat _
  · exact (plain_ofNat _).append (.cons (by decide) (plain_ofNat _))

namespace Filter

theorem plain_factor (r : Ratio) : Plain (factor r) := by
  unfold factor
  split
  · exact r.plain_expression
  · exact .cons (by decide) (r.plain_expression.append (by decide))

/-- An expression holds no character that has a meaning in a pipeline or in a script. -/
theorem plain_expression (f : Filter) : Plain f.expression := by
  cases f with
  | prepare opacity scale =>
    unfold expression
    refine (All.append (by decide) opacity.plain_numeral).append ?_
    split
    · decide
    · exact (All.append (by decide) scale.plain_numeral).append (by decide)
  | overlay x y => exact (All.append (by decide) (plain_ofInt _)).append (.cons (by decide) (plain_ofInt _))
  | retime speed => exact All.append (by decide) speed.plain_numeral
  | crop shape =>
    unfold expression cropExpression
    refine ((All.append ?_ (plain_factor shape)).append ?_ |>.append (plain_factor shape)).append ?_
    · decide
    · decide
    · decide
  | resize height => exact All.append (by decide) (plain_ofNat height)

theorem expression_ne_nil (f : Filter) : f.expression ≠ [] := by
  cases f <;> exact List.cons_ne_nil _ _

theorem head?_expression_append (f : Filter) (t : Text) : (f.expression ++ t).head? ≠ some '[' := by
  have hplain := f.plain_expression
  obtain ⟨c, r, hf⟩ := List.exists_cons_of_ne_nil f.expression_ne_nil
  rw [hf] at hplain ⊢
  intro h
  cases Option.some.inj h
  exact hplain.not_mem (by decide) List.mem_cons_self

end Filter

theorem Stream.plain_name (s : Stream) : Plain s.name := by
  cases s <;> decide

theorem Stream.mem_label {s : Stream} {c : Char} (h : c ∈ s.label) :
    isPlain c = true ∨ c = '[' ∨ c = ']' := by
  simp only [label, List.cons_append, List.mem_cons, List.mem_append, List.not_mem_nil, or_false] at h
  rcases h with rfl | h | rfl
  · exact .inr (.inl rfl)
  · exact .inl (s.plain_name c h)
  · exact .inr (.inr rfl)

theorem Stage.mem_text {s : Stage} {c : Char} (h : c ∈ s.text) :
    isPlain c = true ∨ c = '[' ∨ c = ']' := by
  simp only [text, List.mem_append, List.mem_flatMap] at h
  rcases h with (⟨t, -, h⟩ | h) | h
  · exact Stream.mem_label h
  · exact .inl (s.filter.plain_expression c h)
  · exact Stream.mem_label h

theorem isInert_of_mem {c : Char} (h : isPlain c = true ∨ c = '[' ∨ c = ']') : isInert c = true := by
  rcases h with h | rfl | rfl
  · exact Text.isInert_of_isPlain c h
  · decide
  · decide

theorem Stream.inert_label (s : Stream) : s.label.Inert := fun _ hc => isInert_of_mem (mem_label hc)

theorem Chain.inert_pipeline (ch : Chain) : ch.pipeline.Inert := fun c hc => by
  rcases Text.mem_intercalate hc with rfl | ⟨t, ht, h⟩
  · decide
  · obtain ⟨s, -, rfl⟩ := List.mem_map.1 ht
    exact isInert_of_mem (Stage.mem_text h)

/-! ## Reading a stage -/

/-- The names in brackets at the front of a text, and the rest. -/
def readLabels : Text → List Text × Text
  | '[' :: t =>
    let (names, rest) := readLabels (t.dropWhile (· != ']')).tail
    (t.takeWhile (· != ']') :: names, rest)
  | t => ([], t)
termination_by t => t.length
decreasing_by
  have := (List.dropWhile_sublist (· != ']') (l := t)).length_le
  simp only [List.length_tail, List.length_cons]
  omega

theorem readLabels_of_head {t : Text} (h : t.head? ≠ some '[') : readLabels t = ([], t) := by
  rw [readLabels]
  rintro t rfl
  exact h rfl

theorem readLabels_label_append (s : Stream) (t : Text) :
    readLabels (s.label ++ t) = (s.name :: (readLabels t).1, (readLabels t).2) := by
  have hname : ∀ c ∈ s.name, (c != ']') = true := fun c hc => by
    rw [bne_iff_ne]
    rintro rfl
    exact s.plain_name.not_mem (by decide) hc
  have hbracket : (']' != ']') = false := rfl
  have hlabel : s.label ++ t = '[' :: (s.name ++ ']' :: t) := by
    rw [Stream.label, List.cons_append, List.cons_append, List.append_assoc, List.singleton_append]
  rw [hlabel, readLabels, List.dropWhile_append_of_pos hname, List.takeWhile_append_of_pos hname]
  simp

theorem readLabels_labels_append (ss : List Stream) (t : Text) :
    readLabels (ss.flatMap Stream.label ++ t)
      = (ss.map Stream.name ++ (readLabels t).1, (readLabels t).2) := by
  induction ss with
  | nil => rfl
  | cons s ss ih =>
    rw [List.flatMap_cons, List.append_assoc, readLabels_label_append, ih]
    rfl

namespace Stage

/-- What the text of a stage shows: names of streams, and an expression. -/
structure Parts where
  inputs : List Text
  expression : Text
  output : Text
deriving DecidableEq

def parts (s : Stage) : Parts := ⟨s.inputs.map Stream.name, s.filter.expression, s.output.name⟩

/-- Reads names in brackets, an expression up to the next bracket, and one name in brackets at the end. -/
def read? (t : Text) : Option Parts :=
  let (inputs, rest) := readLabels t
  match readLabels (rest.dropWhile (· != '[')) with
  | ([output], []) => some ⟨inputs, rest.takeWhile (· != '['), output⟩
  | _ => none

/-- The text of a stage is read as its parts. -/
theorem read?_text (s : Stage) : read? s.text = some s.parts := by
  have hexpr : ∀ c ∈ s.filter.expression, (c != '[') = true := fun c hc => by
    rw [bne_iff_ne]
    rintro rfl
    exact s.filter.plain_expression.not_mem (by decide) hc
  have hbracket : ¬ ('[' != '[') = true := by decide
  have hinputs : readLabels s.text
      = (s.inputs.map Stream.name, s.filter.expression ++ s.output.label) := by
    rw [text, List.append_assoc, readLabels_labels_append,
      readLabels_of_head (s.filter.head?_expression_append _), List.append_nil]
  have hdrop : (s.filter.expression ++ s.output.label).dropWhile (· != '[') = s.output.label := by
    rw [List.dropWhile_append_of_pos hexpr, Stream.label, List.cons_append,
      List.dropWhile_cons_of_neg (p := (· != '[')) hbracket]
  have htake : (s.filter.expression ++ s.output.label).takeWhile (· != '[') = s.filter.expression := by
    rw [List.takeWhile_append_of_pos hexpr, Stream.label, List.cons_append,
      List.takeWhile_cons_of_neg (p := (· != '[')) hbracket, List.append_nil]
  have houtput : readLabels s.output.label = ([s.output.name], []) := by
    have h := readLabels_label_append s.output []
    rwa [List.append_nil, readLabels_of_head (t := []) nofun] at h
  rw [read?, hinputs]
  dsimp only
  rw [hdrop, houtput, htake]
  rfl

end Stage

/-- A pipeline splits into the texts of its stages. -/
theorem Chain.splitOn_pipeline {ch : Chain} (h : ch.stages ≠ []) :
    ch.pipeline.splitOn ';' = ch.stages.map Stage.text := by
  refine List.splitOn_intercalate ';' (fun t ht hc => ?_) (by simpa using h)
  obtain ⟨s, -, rfl⟩ := List.mem_map.1 ht
  rcases Stage.mem_text hc with h | h | h
  · exact absurd h (by decide)
  · exact absurd h (by decide)
  · exact absurd h (by decide)

/-- The pieces of a pipeline are read as the parts of its stages. -/
theorem Chain.read_pipeline {ch : Chain} (h : ch.stages ≠ []) :
    (ch.pipeline.splitOn ';').map Stage.read? = ch.stages.map fun s => some s.parts := by
  rw [splitOn_pipeline h, List.map_map]
  exact List.map_congr_left fun s _ => s.read?_text

end Watermark
