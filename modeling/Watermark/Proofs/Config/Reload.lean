import Watermark.Assistant.Message
import Watermark.Config.File
import Watermark.Proofs.Json.Nested
import Watermark.Proofs.Storage.Saving

/-!
# Configurations and messages come back

A configuration is a record of records, and a message is a record. Each of them is written field by field, so it is
read as it was written (`Config.returns_record`, `Message.returns_record`). A configuration that was saved is also found
where it was saved, so loading gives the same one (`Config.load_of_save`).
-/

namespace Watermark

open Json (Returns WrittenField returns_text returns_bool returns_uint64 returns_ofOption)

/-! ## The records -/

/-- The fields as they are written. -/
def OutputDefaults.parts (o : OutputDefaults) : List (WrittenField OutputDefaults) :=
  [ .of "dialect" .initial (fun v o => { o with dialect := v }) (returns_text o.dialect),
    .of "video_name" .initial (fun v o => { o with videoName := v }) (returns_ofOption o.videoName),
    .of "watermark_name" .initial (fun v o => { o with imageName := v }) (returns_ofOption o.imageName) ]

theorem OutputDefaults.returns_record (o : OutputDefaults) : Returns (Json.record fields initial) o.toJson o :=
  Json.returns_record o.parts (List.cons_ne_nil _ _) (show (fields.map (·.key)).Nodup by decide) initial

/-- The fields as they are written. -/
def AssistantConfig.parts (a : AssistantConfig) : List (WrittenField AssistantConfig) :=
  [ .of "base_url" .initial (fun v a => { a with baseUrl := v }) (returns_text a.baseUrl),
    .of "model" .initial (fun v a => { a with model := v }) (returns_text a.model),
    .of "api_key_env" .initial (fun v a => { a with apiKeyEnv := v }) (returns_text a.apiKeyEnv),
    .of "timeout_secs" .initial (fun v a => { a with timeoutSecs := v }) (returns_uint64 a.timeoutSecs) ]

theorem AssistantConfig.returns_record (a : AssistantConfig) : Returns (Json.record fields initial) a.toJson a :=
  Json.returns_record a.parts (List.cons_ne_nil _ _) (show (fields.map (·.key)).Nodup by decide) initial

/-- The fields as they are written. -/
def LoggingConfig.parts (l : LoggingConfig) : List (WrittenField LoggingConfig) :=
  [ .of "level" .initial (fun v l => { l with level := v }) (returns_text l.level),
    .of "json" .initial (fun v l => { l with json := v }) (returns_bool l.json) ]

theorem LoggingConfig.returns_record (l : LoggingConfig) : Returns (Json.record fields initial) l.toJson l :=
  Json.returns_record l.parts (List.cons_ne_nil _ _) (show (fields.map (·.key)).Nodup by decide) initial

namespace Config

/-- The sections as they are written. -/
def parts (c : Config) : List (WrittenField Config) :=
  [ .of "output" .initial (fun v c => { c with output := v }) c.output.returns_record,
    .of "assistant" .initial (fun v c => { c with assistant := v }) c.assistant.returns_record,
    .of "logging" .initial (fun v c => { c with logging := v }) c.logging.returns_record ]

theorem returns_record (c : Config) : Returns (Json.record fields initial) c.toJson c :=
  Json.returns_record c.parts (List.cons_ne_nil _ _) (show (fields.map (·.key)).Nodup by decide) initial

end Config

namespace Message

theorem returns_speaker (s : Speaker) : Returns Speaker.read (.text s.name) s :=
  Json.returns_variant (by cases s <;> decide)

/-- The fields as they are written. -/
def parts (m : Message) : List (WrittenField Message) :=
  [ .of "role" .refused (fun v m => { m with speaker := v }) (returns_speaker m.speaker),
    .of "text" .refused (fun v m => { m with text := v }) (returns_text m.text),
    .of "sent_at" .refused (fun v m => { m with sentAt := v }) (returns_text m.sentAt),
    .of "stale_context" .initial (fun v m => { m with stale := v }) (returns_bool m.stale),
    .of "is_error" .initial (fun v m => { m with isError := v }) (returns_bool m.isError) ]

theorem returns_record (m : Message) : Returns (Json.record fields blank) m.toJson m :=
  Json.returns_record m.parts (List.cons_ne_nil _ _) (show (fields.map (·.key)).Nodup by decide) blank

end Message

/-! ## The file -/

namespace Config

variable {c : Config} {path : Text} {d d' : Disk}

/-- Saving ends with writing. -/
theorem puts_of_save (h : (save c path : StateM Disk (Except StorageFault Unit)).run d = (.ok (), d')) :
    ∃ (e : Disk) (p : Place), e.Puts path c.toJson.pretty p d' := by
  rw [save] at h
  obtain ⟨e, hrun, -⟩ | ⟨f, e, hrun, -⟩ :=
    (Disk.OnlyMakes.createFolders ((Path.parent? path).getD [])).run_cases d
  · rw [Disk.run_bind_of_run hrun] at h
    obtain ⟨p, e', hwrite, hputs⟩ | ⟨f, hwrite⟩ := Disk.run_write path c.toJson.pretty e
    · cases hwrite.symm.trans h
      exact ⟨e, p, hputs⟩
    · cases hwrite.symm.trans h
  · rw [Disk.run_bind_of_run hrun] at h
    cases h

/-- A configuration is loaded as it was saved, and loading changes nothing. -/
theorem load_of_save (h : (save c path : StateM Disk (Except StorageFault Unit)).run d = (.ok (), d')) :
    (load path : StateM Disk Config).run d' = (c, d') := by
  obtain ⟨_, _, hputs⟩ := puts_of_save h
  have hconfig : ofJson c.toJson.pretty = .ok c := c.returns_record.readAll (.lines 0)
  rw [load, Disk.run_bind_of_run (Disk.run_isPresent path d'), hputs.isPresent, if_pos rfl,
    Disk.run_bind_of_run (Disk.run_read path d'), hputs.read]
  dsimp only
  rw [hconfig]
  rfl

end Config

/-- Configurations and messages survive their JSON form, whatever their texts are. Each is read from either notation as
it was written. Where a configuration was saved, the same one is loaded, and not the initial one that stands for a file
which cannot be read. -/
theorem stored_records_reload :
    (∀ (c : Config), ∀ t ∈ [c.toJson.compact, c.toJson.pretty], Config.ofJson t = .ok c)
      ∧ (∀ (c : Config) (path : Text) (d d' : Disk),
        (c.save path : StateM Disk (Except StorageFault Unit)).run d = (.ok (), d') →
          (Config.load path : StateM Disk Config).run d' = (c, d'))
      ∧ ∀ (m : Message), ∀ t ∈ [m.toJson.compact, m.toJson.pretty], Message.ofJson t = .ok m := by
  refine ⟨fun c => ?_, fun c path d d' h => c.load_of_save h, fun m => ?_⟩
  · simp only [List.forall_mem_cons, List.not_mem_nil, false_implies, implies_true, and_true]
    exact ⟨c.returns_record.readAll .compact, c.returns_record.readAll (.lines 0)⟩
  · simp only [List.forall_mem_cons, List.not_mem_nil, false_implies, implies_true, and_true]
    exact ⟨m.returns_record.readAll .compact, m.returns_record.readAll (.lines 0)⟩

/-- A name in quotes, an empty name and the greatest time, in a folder that is made for them. -/
theorem unusual_config_reloads :
    let c : Config := { Config.initial with
      output := ⟨"a \"b\"\\\n".toList, none, some []⟩
      assistant := { AssistantConfig.initial with timeoutSecs := 18446744073709551615 } }
    let path := "wmforge/config.json".toList
    let saved := (c.save path : StateM Disk (Except StorageFault Unit)).run (.empty #["home".toList])
    saved.1.toBool = true ∧ (Config.load path : StateM Disk Config).run saved.2 = (c, saved.2) := by
  intro c path saved
  have hbool : saved.1.toBool = true := by decide +kernel
  have hsaved : saved.1 = .ok () := by
    cases hresult : saved.1 with
    | error f =>
      rw [hresult] at hbool
      cases hbool
    | ok u => rfl
  exact ⟨hbool, stored_records_reload.2.1 c path _ saved.2 (Prod.ext hsaved rfl)⟩

end Watermark
