import Watermark.CommandLine.Run
import Watermark.Proofs.Settings.Reload
import Watermark.Proofs.Storage.Saving

/-!
# Files that the commands change

Two commands write files, each of them one file at a time: `init` its settings, and `compile` the text that it saves
in a folder. Both make folders first and then write. After the write `compile` makes a script executable, which a disk
in memory does not refuse (`Disk.run_allowExecution`); in a storage that can refuse it, the command would fail with the
script written. So on a disk a call of the program has one of two effects (`CommandLine.Call.Effect`): it makes folders
at most, or it ends well and has saved its file. What a row of calls changes follows call by call.

* `only_writers_change_files`: a file changes only by the call that is to write it;
* `init_replaces_file_behind_new_folder`: the one way in which `init` replaces a file without being told to.
-/

namespace Watermark

namespace Settings

open Disk (Grows OnlyMakes Saved)

variable {d : Disk} {path t : Text} {s : Settings}

theorem ofJson_pretty (hs : s.Finite) (hsurvive : ∀ x ∈ s.numbers, x.Survives) : ofJson s.toJson.pretty = .ok s := by
  rw [ofJson_toJson hs _ (by simp), reread_eq_ok_iff]
  exact ⟨forall_numbers.1 hsurvive, rfl⟩

/-- The settings that are loaded from a disk. -/
def loaded (d : Disk) (path : Text) : Except SettingsFileError Settings := do
  let t ← (d.read path).mapError (SettingsFileError.storage path)
  (ofJson t).mapError (SettingsFileError.json path)

/-- Loading leaves the disk as it is. -/
theorem run_load (path : Text) (d : Disk) :
    (load path : StateM Disk (Except SettingsFileError Settings)).run d = (loaded d path, d) := by
  rw [load, Disk.run_bind_of_run (Disk.run_read path d), loaded]
  cases d.read path with
  | error f => rfl
  | ok t =>
    show _ = ((ofJson t).mapError (SettingsFileError.json path), d)
    dsimp only
    cases ofJson t <;> rfl

theorem loaded_of_read (hread : d.read path = .ok t) (hjson : ofJson t = .ok s) : loaded d path = .ok s := by
  rw [loaded, hread]
  show (ofJson t).mapError (SettingsFileError.json path) = _
  rw [hjson]
  rfl

/-- Saving makes folders and fails, or it saves the settings as text. -/
theorem run_save (s : Settings) (path : Text) (d : Disk) :
    (∃ f e, (s.save path : StateM Disk (Except SettingsFileError Unit)).run d = (.error f, e) ∧ d.Grows e)
      ∨ ∃ p e, (s.save path : StateM Disk (Except SettingsFileError Unit)).run d = (.ok (), e)
        ∧ d.Saved path s.toJson.pretty p e := by
  unfold save
  have hmakes : OnlyMakes (if ((Path.parent? path).getD []).isEmpty then pure (.ok ())
      else Storage.createFolders ((Path.parent? path).getD []) : StateM Disk (Except StorageFault Unit)) := by
    split
    · exact .pure _
    · exact .createFolders _
  obtain ⟨made, hrun, hgrows⟩ | ⟨fault, e, hrun, hgrows⟩ := hmakes.run_cases d
  · rw [Disk.run_bind_of_run hrun]
    dsimp only
    obtain ⟨p, e, hwrite, hputs⟩ | ⟨fault, hwrite⟩ := Disk.run_write path s.toJson.pretty made
    · rw [Disk.run_bind_of_run hwrite]
      exact .inr ⟨p, e, rfl, made, hgrows, hputs⟩
    · rw [Disk.run_bind_of_run hwrite]
      exact .inl ⟨_, made, rfl, hgrows⟩
  · rw [Disk.run_bind_of_run hrun]
    exact .inl ⟨_, e, rfl, hgrows⟩

end Settings

namespace CommandLine

open Disk (Grows OnlyMakes Saved)

/-- The settings that `init` saves are loaded as they are. -/
theorem ofJson_newSettings (batch : Bool) :
    Settings.ofJson (newSettings batch).toJson.pretty = .ok (newSettings batch) := by
  have hnumbers : (newSettings batch).numbers = Settings.initial.numbers := by
    simp only [newSettings, Settings.numbers]
  refine Settings.ofJson_pretty ?_ ?_
  · rw [Settings.Finite, hnumbers]
    decide +kernel
  · rw [hnumbers]
    decide +kernel

/-! ## Single commands -/

variable (w : Wording)

theorem run_validate (path : Text) (d : Disk) :
    ∃ r, (validate w path : StateM Disk Report).run d = (r, d) := by
  rw [validate, Disk.run_bind_of_run (Settings.run_load path d)]
  cases Settings.loaded d path <;> exact ⟨_, rfl⟩

theorem run_info (path : Text) (d : Disk) : ∃ r, (info w path : StateM Disk Report).run d = (r, d) := by
  rw [info, Disk.run_bind_of_run (Settings.run_load path d)]
  cases Settings.loaded d path <;> exact ⟨_, rfl⟩

/-- New settings are refused, or fail when folders were made at most, or are saved. -/
theorem run_init (path : Text) (batch force : Bool) (d : Disk) :
    (∃ r e, (init w path batch force : StateM Disk Report).run d = (r, e) ∧ r.failure.isSome ∧ d.Grows e)
      ∨ ∃ r p e, (init w path batch force : StateM Disk Report).run d = (r, e) ∧ r.failure = none
        ∧ (d.isPresent path = true → force = true) ∧ d.Saved path (newSettings batch).toJson.pretty p e := by
  rw [init, Disk.run_bind_of_run (Disk.run_isPresent path d)]
  split
  · exact .inl ⟨_, d, rfl, rfl, .refl⟩
  · next hfree =>
    have hforce : d.isPresent path = true → force = true := by
      intro hpresent
      simpa [hpresent] using hfree
    dsimp only
    obtain ⟨f, e, hrun, hgrows⟩ | ⟨p, e, hrun, hsaved⟩ := (newSettings batch).run_save path d
    · rw [Disk.run_bind_of_run hrun]
      exact .inl ⟨_, e, rfl, rfl, hgrows⟩
    · rw [Disk.run_bind_of_run hrun]
      exact .inr ⟨_, p, e, rfl, rfl, hforce, hsaved⟩

/-- Text is saved, or saving fails when folders were made at most. -/
theorem run_saveText (folder : Text) (t : Target) (text : Text) (d : Disk) :
    (∃ f e, (saveText folder t text : StateM Disk (Except StorageFault Text)).run d = (.error f, e) ∧ d.Grows e)
      ∨ ∃ saved p e, (saveText folder t text : StateM Disk (Except StorageFault Text)).run d = (.ok saved, e)
        ∧ d.Saved (Path.join folder t.fileName) text p e := by
  unfold saveText
  dsimp only
  obtain ⟨made, hrun, hgrows⟩ | ⟨fault, e, hrun, hgrows⟩ := (OnlyMakes.createFolders folder).run_cases d
  · rw [Disk.run_bind_of_run hrun]
    dsimp only
    obtain ⟨p, e, hwrite, hputs⟩ | ⟨fault, hwrite⟩ := Disk.run_write (Path.join folder t.fileName) text made
    · rw [Disk.run_bind_of_run hwrite]
      dsimp only
      have hallowed : ∃ f, (if t.isExecutable = true then Storage.allowExecution (Path.join folder t.fileName)
          else pure (.ok ()) : StateM Disk (Except StorageFault Unit)).run e = (.ok (), f)
          ∧ made.Puts (Path.join folder t.fileName) text p f := by
        split
        · exact Disk.run_allowExecution hputs
        · exact ⟨e, rfl, hputs⟩
      obtain ⟨f, hallowed, hputs⟩ := hallowed
      rw [Disk.run_bind_of_run hallowed]
      exact .inr ⟨_, p, f, rfl, made, hgrows, hputs⟩
    · rw [Disk.run_bind_of_run hwrite]
      exact .inl ⟨_, made, rfl, hgrows⟩
  · rw [Disk.run_bind_of_run hrun]
    exact .inl ⟨_, e, rfl, hgrows⟩

/-- Compiling fails when folders were made at most, or shows the text, or saves it. -/
theorem run_compile (c : Config) (path : Text) (o : CompileOptions) (d : Disk) :
    (∃ r e, (compile w c path o : StateM Disk Report).run d = (r, e) ∧ r.failure.isSome ∧ d.Grows e)
      ∨ (∃ r, (compile w c path o : StateM Disk Report).run d = (r, d) ∧ r.failure = none ∧ o.saveTo = none)
      ∨ ∃ r p e, (compile w c path o : StateM Disk Report).run d = (r, e) ∧ r.failure = none
        ∧ ∃ s dialect folder, Settings.loaded d path = .ok s ∧ chooseDialect c o = .ok dialect
          ∧ o.saveTo = some folder
          ∧ d.Saved (Path.join folder (s.sanitized.target dialect).fileName)
            (s.sanitized.compile (chooseMedia c o) dialect) p e := by
  rw [compile, Disk.run_bind_of_run (Settings.run_load path d)]
  cases hload : Settings.loaded d path with
  | error f => exact .inl ⟨_, d, rfl, rfl, .refl⟩
  | ok s =>
    dsimp only
    cases hdialect : chooseDialect c o with
    | error p => exact .inl ⟨_, d, rfl, rfl, .refl⟩
    | ok dialect =>
      dsimp only
      cases hsave : o.saveTo with
      | none => exact .inr (.inl ⟨_, rfl, rfl, rfl⟩)
      | some folder =>
        dsimp only
        obtain ⟨f, e, hrun, hgrows⟩ | ⟨saved, p, e, hrun, hsaved⟩ :=
          run_saveText folder (s.sanitized.target dialect) (s.sanitized.compile (chooseMedia c o) dialect) d
        · rw [Disk.run_bind_of_run hrun]
          exact .inl ⟨_, e, rfl, rfl, hgrows⟩
        · rw [Disk.run_bind_of_run hrun]
          exact .inr (.inr ⟨_, p, e, rfl, rfl, s, dialect, folder, rfl, rfl, rfl, hsaved⟩)

/-! ## Calls of the program -/

/-- Whether a command works on files alone; a question goes to the assistant. -/
def Command.isLocal : Command → Bool
  | .ask .. => false
  | _ => true

/-- Whether a command is to write a file. -/
def Command.isWriter : Command → Bool
  | .init .. => true
  | .compile _ o => o.saveTo.isSome
  | _ => false

/-- A command on files and the configuration that it finds. -/
structure Call where
  config : Config
  command : Command
  isLocal : command.isLocal = true

/-- From `d` to `e` a call has written the file at `p`. New settings are loaded as the initial ones in their mode. Without
force nothing was at their path, and where everything stands in a folder, they replace no file, unless their path goes
into a folder that was not there and back. Saved text is compiled from the settings as they were loaded. -/
def Call.Writes (k : Call) (d : Disk) (p : Place) (e : Disk) : Prop :=
  match k.command with
  | .init path batch force =>
    e.Leads path p
      ∧ (Settings.load path : StateM Disk (Except SettingsFileError Settings)).run e = (.ok (newSettings batch), e)
      ∧ (d.isPresent path = true → force = true)
      ∧ (d.WellFormed → d.content? p ≠ none →
        force = true ∨ Path.goesBack path = true ∧ ∀ s, d.locate path ≠ .ok s)
  | .compile path o =>
    ∃ s dialect folder,
      (Settings.load path : StateM Disk (Except SettingsFileError Settings)).run d = (.ok s, d)
        ∧ chooseDialect k.config o = .ok dialect ∧ o.saveTo = some folder
        ∧ e.Leads (Path.join folder (s.sanitized.target dialect).fileName) p
        ∧ e.content? p = some (.text (s.sanitized.compile (chooseMedia k.config o) dialect))
  | _ => False

/-- What a call does to a disk: it makes folders at most, and a command that is to write has failed then, or it ends
well and has written one file. -/
inductive Call.Effect (k : Call) (d : Disk) (r : Report) (e : Disk) : Prop
  | spared (ended : r.failure.isSome ∨ k.command.isWriter = false) (grows : d.Grows e)
  | wrote {p : Place} (ended : r.failure = none) (writer : k.command.isWriter = true) (writes : k.Writes d p e)
      (others : ∀ q ≠ p, e.content? q = d.content? q) (wellFormed : d.WellFormed → e.WellFormed)

section Runs

variable (peer : Peer (StateM Disk)) (env : Environment) {d : Disk}

/-- The report of a call and the disk that it leaves. -/
def Call.on (k : Call) (d : Disk) : Report × Disk :=
  (k.command.run w peer env k.config : StateM Disk Report).run d

theorem Call.effect (k : Call) (d : Disk) : k.Effect d (k.on w peer env d).1 (k.on w peer env d).2 := by
  obtain ⟨config, command, hlocal⟩ := k
  cases command with
  | init path batch force =>
    obtain ⟨r, e, hrun, hfailed, hgrows⟩ | ⟨r, p, e, hrun, hended, hforce, hsaved⟩ := run_init w path batch force d
    · rw [Call.on, Command.run, hrun]
      exact .spared (.inl hfailed) hgrows
    · rw [Call.on, Command.run, hrun]
      refine .wrote hended rfl ⟨hsaved.leads, ?_, hforce, fun hd hold => ?_⟩ (fun q => hsaved.content?_of_ne)
        hsaved.wellFormed
      · rw [Settings.run_load, Settings.loaded_of_read hsaved.read (ofJson_newSettings batch)]
      · by_cases hpresent : d.isPresent path = true
        · exact .inl (hforce hpresent)
        · exact .inr (hsaved.goesBack hd (Bool.eq_false_iff.2 hpresent) hold)
  | validate path =>
    obtain ⟨r, hrun⟩ := run_validate w path d
    rw [Call.on, Command.run, hrun]
    exact .spared (.inr rfl) .refl
  | compile path o =>
    obtain ⟨r, e, hrun, hfailed, hgrows⟩ | ⟨r, hrun, -, hsave⟩
      | ⟨r, p, e, hrun, hended, s, dialect, folder, hload, hdialect, hsave, hsaved⟩ := run_compile w config path o d
    · rw [Call.on, Command.run, hrun]
      exact .spared (.inl hfailed) hgrows
    · rw [Call.on, Command.run, hrun]
      exact .spared (.inr (by rw [Command.isWriter, hsave]; rfl)) .refl
    · rw [Call.on, Command.run, hrun]
      refine .wrote hended (by rw [Command.isWriter, hsave]; rfl)
        ⟨s, dialect, folder, ?_, hdialect, hsave, hsaved.leads, hsaved.content?⟩ (fun q => hsaved.content?_of_ne)
        hsaved.wellFormed
      rw [Settings.run_load, hload]
  | ask path question => cases hlocal
  | info path =>
    obtain ⟨r, hrun⟩ := run_info w path d
    rw [Call.on, Command.run, hrun]
    exact .spared (.inr rfl) .refl

/-- A call that fails or that is not to write leaves what every file holds. -/
theorem Call.content?_eq (k : Call) (h : (k.on w peer env d).1.failure.isSome ∨ k.command.isWriter = false)
    (p : Place) : (k.on w peer env d).2.content? p = d.content? p := by
  cases k.effect w peer env d with
  | spared _ hgrows => exact hgrows.content?_eq p
  | wrote hended hwriter =>
    rw [hended, hwriter] at h
    rcases h with h | h <;> cases h

/-- A call that ends well and is to write has written one file. -/
theorem Call.exists_writes (k : Call) (hended : (k.on w peer env d).1.failure = none)
    (hwriter : k.command.isWriter = true) : ∃ p, k.Writes d p (k.on w peer env d).2
      ∧ ∀ q ≠ p, (k.on w peer env d).2.content? q = d.content? q := by
  cases k.effect w peer env d with
  | spared ended =>
    rw [hended, hwriter] at ended
    rcases ended with h | h <;> cases h
  | wrote _ _ hwrites hothers => exact ⟨_, hwrites, hothers⟩

/-- Where a call changes a file, it has written it. -/
theorem Call.writes_of_ne (k : Call) {p : Place} (h : (k.on w peer env d).2.content? p ≠ d.content? p) :
    (k.on w peer env d).1.failure = none ∧ k.Writes d p (k.on w peer env d).2 := by
  cases k.effect w peer env d with
  | spared _ hgrows => exact absurd (hgrows.content?_eq p) h
  | @wrote q hended _ hwrites hothers =>
    obtain rfl : p = q := Decidable.of_not_not fun hne => h (hothers p hne)
    exact ⟨hended, hwrites⟩

theorem Call.wellFormed (k : Call) (hd : d.WellFormed) : (k.on w peer env d).2.WellFormed := by
  cases k.effect w peer env d with
  | spared _ hgrows => exact hgrows.wellFormed hd
  | wrote _ _ _ _ hwell => exact hwell hd

/-- The disk after calls, one after the other. -/
def after (calls : List Call) (d : Disk) : Disk := calls.foldl (fun d k => (k.on w peer env d).2) d

theorem wellFormed_after (hd : d.WellFormed) (calls : List Call) : (after w peer env calls d).WellFormed := by
  induction calls generalizing d with
  | nil => exact hd
  | cons k calls ih => exact ih (k.wellFormed w peer env hd)

/-- Among calls that begin at the disk `d`, the call `k` finds the disk `old`. -/
def Call.Finds (calls : List Call) (d : Disk) (k : Call) (old : Disk) : Prop :=
  ∃ before later, calls = before ++ k :: later ∧ old = after w peer env before d

/-- A file that has changed in the end is as the last call that changed it has left it. -/
theorem exists_last_writer (calls : List Call) {p : Place}
    (h : (after w peer env calls d).content? p ≠ d.content? p) :
    ∃ k old, Call.Finds w peer env calls d k old ∧ (k.on w peer env old).1.failure = none
      ∧ k.Writes old p (k.on w peer env old).2
      ∧ (after w peer env calls d).content? p = (k.on w peer env old).2.content? p := by
  induction calls generalizing d with
  | nil => exact absurd rfl h
  | cons k calls ih =>
    by_cases hlater : (after w peer env calls (k.on w peer env d).2).content? p = (k.on w peer env d).2.content? p
    · obtain ⟨hended, hwrites⟩ := k.writes_of_ne w peer env fun hsame => h (hlater.trans hsame)
      exact ⟨k, d, ⟨[], calls, rfl, rfl⟩, hended, hwrites, hlater⟩
    · obtain ⟨k', old, ⟨before, later, rfl, hold⟩, hlast⟩ := ih hlater
      exact ⟨k', old, ⟨k :: before, later, rfl, hold⟩, hlast⟩

end Runs

end CommandLine

open CommandLine

/-- Whatever calls are made, and whatever the disk and their configurations are: a call that fails or that is not to
write leaves what every file holds. One that ends well and is to write has written its file, and it leaves all others. A
file that has changed in the end holds what one of the calls has written there. -/
theorem only_writers_change_files (w : Wording) (peer : Peer (StateM Disk)) (env : Environment) (d : Disk)
    (calls : List Call) :
    (∀ k old, Call.Finds w peer env calls d k old →
        let ran := k.on w peer env old
        (ran.1.failure.isSome ∨ k.command.isWriter = false → ∀ p, ran.2.content? p = old.content? p)
          ∧ (ran.1.failure = none → k.command.isWriter = true →
            ∃ p, k.Writes old p ran.2 ∧ ∀ q ≠ p, ran.2.content? q = old.content? q)
          ∧ (d.WellFormed → old.WellFormed))
      ∧ ∀ p, (after w peer env calls d).content? p ≠ d.content? p →
        ∃ k old, Call.Finds w peer env calls d k old ∧ (k.on w peer env old).1.failure = none
          ∧ k.Writes old p (k.on w peer env old).2
          ∧ (after w peer env calls d).content? p = (k.on w peer env old).2.content? p := by
  refine ⟨?_, fun p => exists_last_writer w peer env calls⟩
  rintro k old ⟨before, later, -, rfl⟩
  exact ⟨k.content?_eq w peer env, k.exists_writes w peer env, fun hd => wellFormed_after w peer env hd before⟩

/-- Without force, new settings replace the file behind a folder that is made for them: nothing is at their path until
the folder is there. -/
theorem init_replaces_file_behind_new_folder :
    let settings := #["settings.json".toList]
    let old := "\x7b\"opacity\":0.3\x7d".toList
    let d := (Disk.empty #[]).put settings (.file (.text old) false)
    let ran := (init .standard "new/../settings.json".toList false false : StateM Disk Report).run d
    d.WellFormed ∧ d.content? settings = some (.text old) ∧ ran.1.failure = none
      ∧ ran.2.content? settings = some (.text (newSettings false).toJson.pretty)
      ∧ (newSettings false).toJson.pretty ≠ old := by
  intro settings old d ran
  refine ⟨Disk.wellFormed_file _ _ _, ?_⟩
  decide +kernel

end Watermark
