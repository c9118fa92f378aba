import Watermark.Proofs.Filter.Pipeline

/-!
# What an expression says

Two filters of one kind have one expression exactly if they do the same: a numeral ends at a character that it
cannot hold (`Text.append_inj_of_stop`), and equal numerals are equal numbers. The chain of an edit has its stages
by the streams that leave them (`Chain.expressionOf`), so one pipeline means the same filters, stage by stage
(`Settings.pipeline_eq_iff`).
-/

namespace Watermark

namespace Filter

/-! ## Expressions -/

theorem numeral_not_mem {c : Char} (hc : c.isAlphanum = false) (hp : c ≠ '.') (hm : c ≠ '-') (x : Binary64) :
    c ∉ x.numeral := fun h => by
  rcases Binary64.mem_numeral h with ha | rfl | rfl
  · rw [ha] at hc
    cases hc
  · exact hp rfl
  · exact hm rfl

variable {o o' f f' v v' : Binary64}

/-- The size behind the opacity, nothing for the size of the image. -/
def scaling (f : Binary64) : Text := if f.same .one then [] else ",scale=iw*".toList ++ f.numeral ++ ":-1".toList

theorem scaling_eq_iff (hf : f ≠ .nan) : scaling f = scaling f' ↔ f.same f' = true := by
  unfold scaling
  by_cases h : f.same .one = true
  · by_cases h' : f'.same .one = true
    · rw [if_pos h, if_pos h']
      rw [Binary64.same_comm] at h'
      exact iff_of_true rfl (Binary64.same_trans h h')
    · rw [if_pos h, if_neg h']
      exact iff_of_false (List.cons_ne_nil _ _).symm fun hsame => h' (Binary64.same_congr hsame _ ▸ h)
  · by_cases h' : f'.same .one = true
    · rw [if_neg h, if_pos h']
      exact iff_of_false (List.cons_ne_nil _ _) fun hsame => h (Binary64.same_trans hsame h')
    · rw [if_neg h, if_neg h', List.append_left_inj, List.append_right_inj]
      exact Binary64.numeral_eq_iff hf

theorem scaling_stop (f : Binary64) : scaling f = [] ∨ ∃ t, scaling f = ',' :: t := by
  unfold scaling
  split
  · exact .inl rfl
  · exact .inr ⟨_, rfl⟩

theorem prepare_eq_iff (ho : o ≠ .nan) (hf : f ≠ .nan) :
    (prepare o f).expression = (prepare o' f').expression ↔ o.same o' = true ∧ f.same f' = true := by
  have hcomma := numeral_not_mem (c := ',') rfl (by decide) (by decide)
  show "format=rgba,colorchannelmixer=aa=".toList ++ o.numeral ++ scaling f
      = "format=rgba,colorchannelmixer=aa=".toList ++ o'.numeral ++ scaling f' ↔ _
  rw [List.append_assoc, List.append_assoc, List.append_right_inj, ← Binary64.numeral_eq_iff ho,
    ← scaling_eq_iff hf]
  constructor
  · exact Text.append_inj_of_stop (hcomma o) (hcomma o') (scaling_stop f) (scaling_stop f')
  · rintro ⟨hnumeral, hscaling⟩
    rw [hnumeral, hscaling]

theorem overlay_eq_iff {x y x' y' : Int64} :
    (overlay x y).expression = (overlay x' y').expression ↔ x = x' ∧ y = y' := by
  have hcolon : ∀ n, ':' ∉ Text.ofInt n := fun n hc => by
    rcases Text.mem_ofInt hc with hd | hd
    · exact absurd hd (by decide)
    · exact absurd hd (by decide)
  show "overlay=".toList ++ Text.ofInt x.toInt ++ ':' :: Text.ofInt y.toInt
      = "overlay=".toList ++ Text.ofInt x'.toInt ++ ':' :: Text.ofInt y'.toInt ↔ _
  rw [List.append_assoc, List.append_assoc, List.append_right_inj]
  constructor
  · intro h
    obtain ⟨hx, hy⟩ := Text.append_cons_inj (hcolon _) (hcolon _) h
    exact ⟨Int64.toInt_inj.1 (Text.ofInt_injective hx), Int64.toInt_inj.1 (Text.ofInt_injective hy)⟩
  · rintro ⟨rfl, rfl⟩
    rfl

theorem retime_eq_iff (hv : v ≠ .nan) :
    (retime v).expression = (retime v').expression ↔ v.same v' = true := by
  show "setpts=PTS/".toList ++ v.numeral = "setpts=PTS/".toList ++ v'.numeral ↔ _
  rw [List.append_right_inj]
  exact Binary64.numeral_eq_iff hv

end Filter

theorem Aspect.crop_eq_iff {a b : Aspect} :
    a.ratio?.map (fun r => (Filter.crop r).expression) = b.ratio?.map (fun r => (Filter.crop r).expression)
      ↔ a = b := by
  cases a <;> cases b <;> decide

theorem Resolution.resize_eq_iff {a b : Resolution} :
    a.height?.map (fun h => (Filter.resize h).expression) = b.height?.map (fun h => (Filter.resize h).expression)
      ↔ a = b := by
  cases a <;> cases b <;> decide

/-! ## The stages of an edit -/

/-- The expression of the stage that writes a stream. -/
def Chain.expressionOf (c : Chain) (t : Stream) : Option Text :=
  ((c.stages.map Stage.parts).find? fun p => p.output == t.name).map Stage.Parts.expression

/-- Chains with one pipeline have the same expression for every stream. -/
theorem Chain.expressionOf_eq_of_pipeline_eq {c d : Chain} (hc : c.stages ≠ []) (hd : d.stages ≠ [])
    (h : c.pipeline = d.pipeline) (t : Stream) : c.expressionOf t = d.expressionOf t := by
  have hread := read_pipeline hc
  rw [h, read_pipeline hd] at hread
  have hparts : (d.stages.map Stage.parts).map some = (c.stages.map Stage.parts).map some := by
    rw [List.map_map, List.map_map]
    exact hread
  rw [expressionOf, expressionOf, (List.map_inj_right fun _ _ => Option.some.inj).1 hparts]

namespace Stage.Parts

/-- The text of a stage with these parts. -/
def text (p : Parts) : Text :=
  (p.inputs.flatMap fun n => '[' :: n ++ [']']) ++ p.expression ++ '[' :: p.output ++ [']']

theorem text_parts (s : Stage) : s.parts.text = s.text := by
  rw [Stage.text, text, parts, List.flatMap_map, List.append_assoc _ _ [']']]
  rfl

end Stage.Parts

namespace Settings

/-- The expressions that make the streams of an edit. -/
def expressions (s : Settings) : Stream → Option Text
  | .source | .image => none
  | .watermark => some (Filter.prepare s.opacity s.scale).expression
  | .composite => some (Filter.overlay s.x s.y).expression
  | .retimed => s.retiming?.map Filter.expression
  | .cropped => s.aspect.ratio?.map fun r => (Filter.crop r).expression
  | .resized => s.resolution.height?.map fun h => (Filter.resize h).expression

/-- A stage that takes the active stream, where there is an expression for its output. -/
def threadStep (e : Stream → Option Text) (ps : List Stage.Parts × Stream) (t : Stream) :
    List Stage.Parts × Stream :=
  match e t with
  | some x => (ps.1 ++ [⟨[ps.2.name], x, t.name⟩], t)
  | none => ps

/-- The parts of the stages for these expressions, and the stream that leaves the last one. -/
def thread (e : Stream → Option Text) : List Stage.Parts × Stream :=
  [.retimed, .cropped, .resized].foldl (threadStep e)
    ([⟨[Stream.name .image], (e .watermark).getD [], Stream.name .watermark⟩,
      ⟨[Stream.name .source, Stream.name .watermark], (e .composite).getD [], Stream.name .composite⟩], .composite)

theorem exists_retiming (s : Settings) : ∃ speed : Option Binary64, s.retiming? = speed.map .retime := by
  unfold retiming?
  split
  · exact ⟨some s.videoSpeed, rfl⟩
  · exact ⟨none, rfl⟩

theorem chain_stages_ne_nil (s : Settings) : s.chain.stages ≠ [] := by
  obtain ⟨speed, hspeed⟩ := s.exists_retiming
  rw [chain, hspeed]
  generalize s.aspect.ratio? = shape
  generalize s.resolution.height? = height
  cases speed <;> cases shape <;> cases height <;> exact List.cons_ne_nil _ _

theorem expressionOf_chain (s : Settings) (t : Stream) : s.chain.expressionOf t = s.expressions t := by
  obtain ⟨speed, hspeed⟩ := s.exists_retiming
  unfold chain expressions
  rw [hspeed]
  generalize s.aspect.ratio? = shape
  generalize s.resolution.height? = height
  cases t <;> cases speed <;> cases shape <;> cases height <;> rfl

/-- The chain is a function of its expressions. -/
theorem thread_expressions (s : Settings) :
    thread s.expressions = (s.chain.stages.map Stage.parts, s.chain.active) := by
  obtain ⟨speed, hspeed⟩ := s.exists_retiming
  unfold thread threadStep expressions chain
  simp only [List.foldl_cons, List.foldl_nil]
  rw [hspeed]
  generalize s.aspect.ratio? = shape
  generalize s.resolution.height? = height
  cases speed <;> cases shape <;> cases height <;> rfl

/-- Two edits have one pipeline exactly if they make every stream alike. -/
theorem pipeline_eq_iff (s t : Settings) :
    s.chain.pipeline = t.chain.pipeline ↔ s.expressions = t.expressions := by
  have hpipeline : ∀ s : Settings,
      s.chain.pipeline = List.intercalate [';'] ((thread s.expressions).1.map Stage.Parts.text) := fun s => by
    rw [thread_expressions, Chain.pipeline, List.map_map]
    exact congrArg _ (List.map_congr_left fun p _ => (Stage.Parts.text_parts p).symm)
  constructor
  · intro h
    funext r
    rw [← expressionOf_chain, ← expressionOf_chain]
    exact Chain.expressionOf_eq_of_pipeline_eq s.chain_stages_ne_nil t.chain_stages_ne_nil h r
  · intro h
    rw [hpipeline s, hpipeline t, h]

theorem active_eq_of_expressions_eq {s t : Settings} (h : s.expressions = t.expressions) :
    s.chain.active = t.chain.active := by
  have hs := congrArg Prod.snd s.thread_expressions
  have ht := congrArg Prod.snd t.thread_expressions
  rw [h] at hs
  exact hs.symm.trans ht

theorem retiming_eq_iff {s t : Settings} (hs : s.videoSpeed ≠ .nan) :
    s.retiming?.map Filter.expression = t.retiming?.map Filter.expression
      ↔ s.videoSpeed.same t.videoSpeed = true := by
  unfold retiming? changesSpeed
  cases h : s.videoSpeed.same .one with
  | true =>
    cases h' : t.videoSpeed.same .one with
    | true =>
      rw [Binary64.same_comm] at h'
      exact iff_of_true rfl (Binary64.same_trans h h')
    | false =>
      refine iff_of_false nofun fun hsame => ?_
      rw [Binary64.same_congr hsame, h'] at h
      cases h
  | false =>
    cases h' : t.videoSpeed.same .one with
    | true =>
      refine iff_of_false nofun fun hsame => ?_
      rw [Binary64.same_congr hsame, h'] at h
      cases h
    | false =>
      rw [← Filter.retime_eq_iff hs]
      exact Option.some_inj

/-- Two edits make every stream alike exactly if their settings of the picture are the same. -/
theorem expressions_eq_iff {s t : Settings} (hopacity : s.opacity ≠ .nan) (hscale : s.scale ≠ .nan)
    (hspeed : s.videoSpeed ≠ .nan) :
    s.expressions = t.expressions
      ↔ (s.opacity.same t.opacity = true ∧ s.scale.same t.scale = true) ∧ (s.x = t.x ∧ s.y = t.y)
        ∧ s.videoSpeed.same t.videoSpeed = true ∧ s.aspect = t.aspect ∧ s.resolution = t.resolution := by
  rw [← Filter.prepare_eq_iff hopacity hscale, ← Filter.overlay_eq_iff, ← retiming_eq_iff hspeed,
    ← Aspect.crop_eq_iff, ← Resolution.resize_eq_iff]
  constructor
  · intro h
    exact ⟨Option.some.inj (congrFun h .watermark), Option.some.inj (congrFun h .composite), congrFun h .retimed,
      congrFun h .cropped, congrFun h .resized⟩
  · rintro ⟨hwatermark, hcomposite, hretimed, hcropped, hresized⟩
    funext r
    cases r with
    | source => rfl
    | image => rfl
    | watermark => exact congrArg some hwatermark
    | composite => exact congrArg some hcomposite
    | retimed => exact hretimed
    | cropped => exact hcropped
    | resized => exact hresized

end Settings

end Watermark
