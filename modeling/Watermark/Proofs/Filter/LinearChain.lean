import Mathlib.Data.List.Count
import Mathlib.Data.List.Nodup
import Watermark.Proofs.Filter.Pipeline

/-!
# A chain has no branches

Every stream that a stage of an edit writes is taken by exactly one later stage, except the last one, which leaves
the chain. A chain under construction keeps this (`Chain.Linear`) for the files that its stages have taken so far:
a further stage takes the active stream, and perhaps a file that no stage has taken yet.

* `Chain.Linear.append`, `Chain.Linear.feed?`: one more stage keeps the chain linear, if its role comes later;
* `Settings.linear_chain`: the chain of an edit is linear, with both files taken;
* `Stage.Parts.Linear`: the same of the parts of stages, in the names that a pipeline shows;
* `pipeline_linear`: a pipeline is read back as such a list of parts.
-/

namespace Watermark

/-! ## Streams -/

namespace Stream

/-- The input files. -/
def files : List Stream := [.source, .image]

theorem name_injective : Function.Injective name := fun s t h => by
  cases s <;> cases t <;> first | rfl | exact absurd h (by decide)

end Stream

namespace Filter

theorem output_not_mem_files (f : Filter) : f.output ∉ Stream.files := by
  cases f <;> simp [output, Stream.files]

/-- Filters that write one stream have one role. -/
theorem role_eq_of_output_eq {f g : Filter} (h : f.output = g.output) : f.role = g.role := by
  cases f <;> cases g <;> first | rfl | cases h

end Filter

/-! ## Chains under construction -/

namespace Chain

/-- The streams that the stages write. -/
def outputs (c : Chain) : List Stream := c.stages.map Stage.output

/-- The streams that the stages take. -/
def consumed (c : Chain) : List Stream := c.stages.flatMap Stage.inputs

/-- The chain has taken the files given, its roles rank below `n`, and of all its streams only the active one has
not been taken. -/
structure Linear (taken : List Stream) (n : Nat) (c : Chain) : Prop where
  files : taken ⊆ Stream.files
  nodup : (taken ++ c.outputs).Nodup
  last : (taken ++ c.outputs).getLast? = some c.active
  consumed : c.consumed.Perm (taken ++ c.outputs).dropLast
  below : ∀ s ∈ c.stages, s.role.rank < n
  increasing : (c.stages.map fun s => s.role.rank).Pairwise (· < ·)
  supplied : ∀ i (h : i < c.stages.length), ∀ t ∈ c.stages[i].inputs,
    t ∈ Stream.files ∨ t ∈ (c.stages.take i).map Stage.output

variable {c : Chain} {taken : List Stream} {n : Nat} {f : Filter}

theorem outputs_append (inputs : List Stream) : (c.append inputs f).outputs = c.outputs ++ [f.output] := by
  simp [outputs, append, Stage.output]

theorem consumed_append (inputs : List Stream) : (c.append inputs f).consumed = c.consumed ++ inputs := by
  simp [consumed, append]

theorem linear_startingAt {t : Stream} (h : t ∈ Stream.files) : (startingAt t).Linear [t] 0 where
  files := by simpa using h
  nodup := List.nodup_singleton t
  last := rfl
  consumed := List.Perm.nil
  below := by simp [startingAt]
  increasing := List.Pairwise.nil
  supplied i hi := absurd hi (by simp [startingAt])

namespace Linear

theorem eq_dropLast_append (h : c.Linear taken n) :
    (taken ++ c.outputs).dropLast ++ [c.active] = taken ++ c.outputs :=
  List.dropLast_append_getLast? _ h.last

theorem output_not_mem (h : c.Linear taken n) (hf : f.role.rank = n) : f.output ∉ taken ++ c.outputs := by
  rw [List.mem_append, not_or]
  refine ⟨fun hm => f.output_not_mem_files (h.files hm), fun hm => ?_⟩
  obtain ⟨s, hs, hout⟩ := List.mem_map.1 hm
  -- the stage that writes this stream has the role of `f`, which ranks too high
  have hrole : s.role = f.role := Filter.role_eq_of_output_eq hout
  have hlt := h.below s hs
  rw [hrole] at hlt
  omega

/-- A further stage takes some files that are left and the active stream. -/
theorem append (h : c.Linear taken n) (hf : f.role.rank = n) (more : List Stream)
    (hmore : more ⊆ Stream.files) (hnew : (more ++ taken).Nodup) :
    (c.append (more ++ [c.active]) f).Linear (more ++ taken) (n + 1) where
  files := List.append_subset.2 ⟨hmore, h.files⟩
  nodup := by
    have hout := h.output_not_mem hf
    have hfile : f.output ∉ more := fun hm => f.output_not_mem_files (hmore hm)
    have hdisjoint : ∀ t ∈ more, t ∉ c.outputs := fun t ht hm => by
      obtain ⟨s, -, rfl⟩ := List.mem_map.1 hm
      exact s.filter.output_not_mem_files (hmore ht)
    rw [outputs_append, ← List.append_assoc, List.nodup_append, List.append_assoc, List.nodup_append]
    rw [List.nodup_append] at hnew
    refine ⟨⟨hnew.1, h.nodup, fun t ht u hu => ?_⟩, List.nodup_singleton _, fun t ht u hu => ?_⟩
    · rcases List.mem_append.1 hu with hu | hu
      · exact hnew.2.2 t ht u hu
      · exact fun he => hdisjoint t ht (he ▸ hu)
    · rw [List.mem_singleton.1 hu]
      rintro rfl
      exact (List.mem_append.1 ht).elim hfile hout
  last := by
    rw [outputs_append, ← List.append_assoc, List.getLast?_append]
    rfl
  consumed := by
    have hall : (more ++ taken ++ (c.outputs ++ [f.output])).dropLast = more ++ (taken ++ c.outputs) := by
      rw [← List.append_assoc, List.dropLast_concat, List.append_assoc]
    rw [consumed_append, outputs_append, hall, ← h.eq_dropLast_append]
    calc c.consumed ++ (more ++ [c.active])
        |>.Perm ((taken ++ c.outputs).dropLast ++ (more ++ [c.active])) := h.consumed.append_right _
      _ |>.Perm (more ++ ((taken ++ c.outputs).dropLast ++ [c.active])) := by
        rw [← List.append_assoc, ← List.append_assoc]
        exact List.perm_append_comm.append_right _
  below s hs := by
    rcases List.mem_append.1 hs with hs | hs
    · have := h.below s hs
      omega
    · rw [List.mem_singleton.1 hs]
      exact Nat.lt_succ_of_le (Nat.le_of_eq hf)
  increasing := by
    rw [Chain.append, List.map_append, List.pairwise_append]
    refine ⟨h.increasing, List.pairwise_singleton _ _, fun r hr r' hr' => ?_⟩
    obtain ⟨s, hs, rfl⟩ := List.mem_map.1 hr
    rw [List.mem_singleton.1 hr']
    exact Nat.lt_of_lt_of_eq (h.below s hs) hf.symm
  supplied i hi t ht := by
    have hactive : c.active ∈ Stream.files ∨ c.active ∈ c.outputs :=
      (List.mem_append.1 (List.mem_of_getLast? h.last)).imp (fun hm => h.files hm) id
    simp only [Chain.append, List.length_append, List.length_singleton] at hi
    rcases Nat.lt_or_ge i c.stages.length with hlt | hge
    · simp only [Chain.append, List.getElem_append_left hlt] at ht
      rw [Chain.append, List.take_append_of_le_length (Nat.le_of_lt hlt)]
      exact h.supplied i hlt t ht
    · have hi : i = c.stages.length := by omega
      subst hi
      simp only [Chain.append, List.getElem_concat_length, List.mem_append, List.mem_singleton] at ht
      rw [Chain.append, List.take_left]
      rcases ht with ht | rfl
      · exact .inl (hmore ht)
      · exact hactive

theorem feed (h : c.Linear taken n) (hf : f.role.rank = n) : (c.feed f).Linear taken (n + 1) := by
  have hnew := (List.nodup_append.1 h.nodup).1
  exact h.append hf [] (List.nil_subset _) hnew

/-- A stage that is left out leaves a place in the order of roles. -/
theorem feed? {f : Option Filter} (h : c.Linear taken n) (hf : ∀ g ∈ f, g.role.rank = n) :
    (c.feed? f).Linear taken (n + 1) := by
  cases f with
  | none => exact { h with below := fun s hs => Nat.lt_succ_of_lt (h.below s hs) }
  | some g => exact h.feed (hf g rfl)

end Linear

end Chain

namespace Settings

/-- The chain of an edit takes both files and has no branches. -/
theorem linear_chain (s : Settings) : s.chain.Linear Stream.files 5 := by
  have hprepare := (Chain.linear_startingAt (t := .image) (by decide)).feed (f := .prepare s.opacity s.scale) rfl
  have hoverlay := hprepare.append (f := .overlay s.x s.y) rfl [.source] (by decide) (by decide)
  have hretime : ∀ g ∈ s.retiming?, g.role.rank = 2 := fun g hg => by
    unfold retiming? at hg
    split at hg <;> cases hg
    rfl
  have hcrop : ∀ g ∈ s.aspect.ratio?.map Filter.crop, g.role.rank = 3 := fun g hg => by
    obtain ⟨r, -, rfl⟩ := Option.map_eq_some_iff.1 hg
    rfl
  have hresize : ∀ g ∈ s.resolution.height?.map Filter.resize, g.role.rank = 4 := fun g hg => by
    obtain ⟨r, -, rfl⟩ := Option.map_eq_some_iff.1 hg
    rfl
  exact ((hoverlay.feed? hretime).feed? hcrop).feed? hresize

/-- The roles of an edit: two are always there, and three where a setting asks for them. -/
theorem roles_chain (s : Settings) :
    s.chain.stages.map Stage.role
      = [.watermarkPrep, .overlay] ++ (if s.changesSpeed then [.speed] else [])
        ++ (if s.aspect = .asSource then [] else [.crop])
        ++ (if s.resolution = .asSource then [] else [.outputScale]) := by
  unfold chain retiming?
  cases s.changesSpeed <;> cases s.aspect <;> cases s.resolution <;> rfl

end Settings

/-! ## What a pipeline shows -/

namespace Stage.Parts

/-- The names of the input files. -/
def files : List Text := ["0".toList, "1".toList]

/-- A list of stages without branches, where `active` leaves the last one. -/
structure Linear (ps : List Parts) (active : Text) : Prop where
  /-- A stage takes files and what earlier stages write. -/
  supplied : ∀ i (h : i < ps.length), ∀ n ∈ ps[i].inputs, n ∈ files ∨ n ∈ (ps.take i).map output
  outputs_nodup : (ps.map output).Nodup
  /-- The files and all outputs but the last are taken once. -/
  taken_once : ∀ n ∈ files ++ (ps.map output).dropLast, (ps.flatMap inputs).count n = 1
  last : (ps.map output).getLast? = some active
  last_not_taken : active ∉ ps.flatMap inputs

end Stage.Parts

namespace Chain

variable {c : Chain} {n : Nat}

theorem map_output_parts (stages : List Stage) :
    (stages.map Stage.parts).map Stage.Parts.output = (stages.map Stage.output).map Stream.name := by
  simp [Stage.parts, Function.comp_def]

theorem flatMap_inputs_parts (c : Chain) :
    (c.stages.map Stage.parts).flatMap Stage.Parts.inputs = c.consumed.map Stream.name := by
  simp [consumed, Stage.parts, List.flatMap_map, List.map_flatMap]

/-- The parts of a linear chain are linear, since streams differ in their names. -/
theorem Linear.parts (h : c.Linear Stream.files n) (hstages : c.stages ≠ []) :
    Stage.Parts.Linear (c.stages.map Stage.parts) c.active.name := by
  have hne : c.outputs ≠ [] := by simpa [outputs] using hstages
  have hdrop : (Stream.files ++ c.outputs).dropLast = Stream.files ++ c.outputs.dropLast :=
    List.dropLast_append_of_ne_nil hne
  have hconsumed : c.consumed.Perm (Stream.files ++ c.outputs.dropLast) := hdrop ▸ h.consumed
  have hnodup : c.consumed.Nodup := hconsumed.nodup_iff.2 (hdrop ▸ h.nodup.sublist (List.dropLast_sublist _))
  have hactive : c.active ∉ c.consumed := fun hm => by
    have hsplit := h.nodup
    rw [← h.eq_dropLast_append, List.nodup_append] at hsplit
    exact hsplit.2.2 _ (h.consumed.mem_iff.1 hm) _ List.mem_cons_self rfl
  refine ⟨fun i hi t ht => ?_, ?_, fun t ht => ?_, ?_, ?_⟩
  · rw [List.length_map] at hi
    simp only [List.getElem_map, Stage.parts, List.mem_map] at ht
    obtain ⟨r, hr, rfl⟩ := ht
    rw [← List.map_take, map_output_parts]
    exact (h.supplied i hi r hr).imp (List.mem_map_of_mem (f := Stream.name)) (List.mem_map_of_mem (f := Stream.name))
  · rw [map_output_parts, List.nodup_map_iff Stream.name_injective]
    exact (List.nodup_append.1 h.nodup).2.1
  · rw [map_output_parts, ← List.map_dropLast, show Stage.Parts.files = Stream.files.map Stream.name from rfl,
      ← List.map_append] at ht
    obtain ⟨r, hr, rfl⟩ := List.mem_map.1 ht
    rw [flatMap_inputs_parts, List.count_map_of_injective _ _ Stream.name_injective]
    exact List.count_eq_one_of_mem hnodup (hconsumed.mem_iff.2 hr)
  · have hlast := h.last
    rw [List.getLast?_append_of_ne_nil _ hne] at hlast
    rw [map_output_parts, List.getLast?_map]
    exact congrArg _ hlast
  · rw [flatMap_inputs_parts, List.mem_map_of_injective Stream.name_injective]
    exact hactive

end Chain

/-- The pipeline of an edit is read back as its stages, and these form one chain without branches: every stage takes
files and what earlier stages write, the two files and every stream but the last are taken once, and the last one is
the active stream. The roles stand in their order; the first two are always there, and the others exactly where the
settings ask for them. -/
theorem pipeline_linear (s : Settings) :
    let stages := s.chain.stages
    let roles := stages.map Stage.role
    (s.chain.pipeline.splitOn ';').map Stage.read? = (stages.map Stage.parts).map some
      ∧ Stage.Parts.Linear (stages.map Stage.parts) s.chain.active.name
      ∧ (roles.map Role.rank).Pairwise (· < ·)
      ∧ [.watermarkPrep, .overlay] <+: roles
      ∧ (Role.speed ∈ roles ↔ s.videoSpeed.same .one = false)
      ∧ (Role.crop ∈ roles ↔ s.aspect ≠ .asSource)
      ∧ (Role.outputScale ∈ roles ↔ s.resolution ≠ .asSource) := by
  intro stages roles
  have hlinear := s.linear_chain
  have hroles : roles = _ := s.roles_chain
  have hne : s.chain.stages ≠ [] := fun h => by
    have hnil : roles = [] := congrArg (List.map Stage.role) h
    simp [hroles] at hnil
  refine ⟨?_, hlinear.parts hne, ?_, ?_, ?_, ?_, ?_⟩
  · rw [Chain.read_pipeline hne, List.map_map]
    rfl
  · rw [List.map_map]
    exact hlinear.increasing
  · rw [hroles, List.append_assoc, List.append_assoc]
    exact List.prefix_append _ _
  · rw [hroles, Settings.changesSpeed]
    cases s.videoSpeed.same .one <;> cases s.aspect <;> cases s.resolution <;> decide
  · rw [hroles]
    cases s.changesSpeed <;> cases s.aspect <;> cases s.resolution <;> decide
  · rw [hroles]
    cases s.changesSpeed <;> cases s.aspect <;> cases s.resolution <;> decide

end Watermark
