import Mathlib.Logic.Relation
import Watermark.Proofs.Storage.WellFormed

/-!
# What saving changes

Saving makes the folders of a path, and then it puts a file there. Folders are made where nothing stood
(`Disk.Grows`), so they change no file, and they stay when the file cannot be written. A file that is put changes its
own place only (`Disk.Saved`). Where the path led nowhere before, it replaces an old file only if it goes into one of
the new folders and back (`Disk.Saved.goesBack`).
-/

namespace Watermark

namespace Disk

variable {d e f : Disk} {p q : Place} {n : Node} {path t : Text}

/-- What the file at a place holds, none where there is no file. -/
def content? (d : Disk) (p : Place) : Option Content :=
  match d.at? p with
  | some (.file c _) => some c
  | _ => none

theorem content?_eq_some_iff {c : Content} : d.content? p = some c ↔ ∃ x, d.at? p = some (.file c x) := by
  unfold content?
  cases d.at? p with
  | none => simp
  | some node => cases node <;> simp

theorem content?_put_of_ne (h : q ≠ p) : (d.put p n).content? q = d.content? q := by
  rw [content?, at?_put_of_ne h, content?]

/-- What is put at a place replaces what was put there before. -/
theorem put_put {n' : Node} : (d.put p n).put p n' = d.put p n' := by
  simp [put, List.filter_filter]

/-- The place that a path leads to, whether or not something stands there. -/
def Leads (d : Disk) (path : Text) (p : Place) : Prop :=
  ∃ q name, d.locate path = .ok (.entry q name) ∧ p = q.push name

/-! ## Folders that are made -/

/-- From `d` to `e` one folder was made, where nothing stood. -/
def Makes (d e : Disk) : Prop := ∃ path, d.makeFolder path = .ok e

/-- From one disk to the other folders were made, one after the other. -/
abbrev Grows : Disk → Disk → Prop := Relation.ReflTransGen Makes

theorem Makes.exists_put (h : Makes d e) :
    ∃ path q name, d.locate path = .ok (.entry q name) ∧ d.at? (q.push name) = none
      ∧ e = d.put (q.push name) .folder := by
  obtain ⟨path, h⟩ := h
  unfold makeFolder at h
  cases hlocate : d.locate path with
  | error f =>
    rw [hlocate] at h
    cases h
  | ok s =>
    rw [hlocate] at h
    cases s with
    | folder q => cases h
    | entry q name =>
      dsimp only [bind, Except.bind] at h
      cases hlook : d.look (.entry q name) with
      | error f =>
        rw [hlook] at h
        cases h
      | ok node =>
        rw [hlook] at h
        cases node with
        | some node => cases h
        | none =>
          cases h
          exact ⟨path, q, name, hlocate, (look_eq_ok_iff.1 hlook).2, rfl⟩

namespace Grows

theorem keepsFolders (h : Grows d e) : KeepsFolders d e := by
  induction h with
  | refl => exact ⟨rfl, id⟩
  | tail _ hmakes ih =>
    obtain ⟨-, q, name, -, hnone, rfl⟩ := hmakes.exists_put
    have hput := keepsFolders_put (n := .folder) (p := q.push name) (by rw [hnone]; nofun)
    exact ⟨hput.workingFolder.trans ih.workingFolder, fun h => hput.folder (ih.folder h)⟩

/-- Making folders changes no file. -/
theorem content?_eq (h : Grows d e) (p : Place) : e.content? p = d.content? p := by
  induction h with
  | refl => rfl
  | @tail made _ _ hmakes ih =>
    obtain ⟨-, q, name, -, hnone, rfl⟩ := hmakes.exists_put
    rw [← ih]
    by_cases hp : p = q.push name
    · rw [hp, content?, at?_put_push, content?, hnone]
    · exact content?_put_of_ne hp

theorem wellFormed (h : Grows d e) (hd : d.WellFormed) : e.WellFormed := by
  induction h with
  | refl => exact hd
  | tail _ hmakes ih =>
    obtain ⟨_, q, name, hlocate, hnone, rfl⟩ := hmakes.exists_put
    exact ih.put (ih.locate hlocate) (by rw [hnone]; nofun)

end Grows

/-- The computation makes folders and changes nothing else. -/
def OnlyMakes {α : Type} (x : StateM Disk α) : Prop := ∀ d, Grows d (x.run d).2

namespace OnlyMakes

theorem pure {α : Type} (a : α) : OnlyMakes (Pure.pure a : StateM Disk α) := fun _ => .refl

theorem bind {α β : Type} {x : StateM Disk α} {k : α → StateM Disk β} (hx : OnlyMakes x)
    (hk : ∀ a, OnlyMakes (k a)) : OnlyMakes (x >>= k) := fun d => (hx d).trans (hk _ _)

theorem run_cases {x : StateM Disk (Except StorageFault Unit)} (hx : OnlyMakes x) (d : Disk) :
    (∃ e, x.run d = (.ok (), e) ∧ Grows d e) ∨ ∃ fault e, x.run d = (.error fault, e) ∧ Grows d e := by
  have hgrows := hx d
  generalize x.run d = ran at hgrows ⊢
  obtain ⟨result, e⟩ := ran
  cases result with
  | error fault => exact .inr ⟨fault, e, rfl, hgrows⟩
  | ok _ => exact .inl ⟨e, rfl, hgrows⟩

theorem makeFolder (path : Text) : OnlyMakes (Storage.makeFolder path : StateM Disk _) := by
  intro d
  show Grows d ((change fun d => d.makeFolder path).run d).2
  obtain ⟨e, hmakes, hrun⟩ | ⟨_, hrun⟩ := run_change (fun d => d.makeFolder path) d
  · rw [hrun]
    exact .single ⟨path, hmakes⟩
  · rw [hrun]

theorem isFolder (path : Text) : OnlyMakes (Storage.isFolder path : StateM Disk _) := fun _ => .refl

theorem ensureFolder (path : Text) : OnlyMakes (Storage.ensureFolder path : StateM Disk _) := by
  unfold Storage.ensureFolder
  refine (makeFolder path).bind fun result => ?_
  split
  · exact (isFolder path).bind fun _ => pure _
  · exact pure _

theorem ensureFolders (paths : List Text) : OnlyMakes (Storage.ensureFolders paths : StateM Disk _) := by
  induction paths with
  | nil => exact pure _
  | cons path above ih =>
    unfold Storage.ensureFolders
    refine (ensureFolder path).bind fun result => ?_
    split
    · refine ih.bind fun made => ?_
      split
      · exact pure _
      · exact ensureFolder path
    · exact pure _

theorem createFolders (path : Text) : OnlyMakes (Storage.createFolders path : StateM Disk _) :=
  ensureFolders (Path.ancestors path)

end OnlyMakes

/-! ## Files that are saved -/

/-- From `d` to `e` folders were made, and then a file was put where the path leads. -/
def Saved (d : Disk) (path t : Text) (p : Place) (e : Disk) : Prop := ∃ made, Grows d made ∧ made.Puts path t p e

namespace Puts

variable (h : d.Puts path t p e)
include h

theorem leads : e.Leads path p := by
  obtain ⟨x, hlocate, -, -, hfolder⟩ := h
  exact ⟨_, _, (keepsFolders_put hfolder).locate hlocate, rfl⟩

theorem content? : e.content? p = some (.text t) := by
  obtain ⟨x, -, -, -, -⟩ := h
  rw [Disk.content?, at?_put_push]

theorem content?_of_ne (hq : q ≠ p) : e.content? q = d.content? q := by
  obtain ⟨x, -, -, -, -⟩ := h
  exact content?_put_of_ne hq

theorem wellFormed (hd : d.WellFormed) : e.WellFormed := by
  obtain ⟨x, hlocate, -, -, hfolder⟩ := h
  exact hd.put (hd.locate hlocate) hfolder

/-- The file can be made executable afterwards. -/
theorem allowExecution : ∃ f, e.allowExecution path = .ok f ∧ d.Puts path t p f := by
  obtain ⟨x, hlocate, hslash, hshort, hfolder⟩ := h
  have hfound := (keepsFolders_put (n := .file (.text t) x) hfolder).locate hlocate
  refine ⟨_, ?_, .intro true hlocate hslash hshort hfolder⟩
  rw [Disk.allowExecution, hfound, find_file hfound hslash hshort (at?_put_push _)]
  exact congrArg Except.ok put_put

end Puts

/-- A file that was just put can be made executable, and then it is still put. -/
theorem run_allowExecution (h : d.Puts path t p e) : ∃ f,
    (Storage.allowExecution path : StateM Disk (Except StorageFault Unit)).run e = (.ok (), f) ∧ d.Puts path t p f := by
  obtain ⟨f, hallowed, hputs⟩ := h.allowExecution
  refine ⟨f, ?_, hputs⟩
  show change (fun d => d.allowExecution path) e = _
  rw [change, hallowed]

namespace Saved

variable (h : d.Saved path t p e)
include h

theorem leads : e.Leads path p := by
  obtain ⟨_, -, hputs⟩ := h
  exact hputs.leads

theorem read : e.read path = .ok t := by
  obtain ⟨_, -, hputs⟩ := h
  exact hputs.read

theorem content? : e.content? p = some (.text t) := by
  obtain ⟨_, -, hputs⟩ := h
  exact hputs.content?

/-- Saving changes no other file. -/
theorem content?_of_ne (hq : q ≠ p) : e.content? q = d.content? q := by
  obtain ⟨_, hgrows, hputs⟩ := h
  rw [hputs.content?_of_ne hq, hgrows.content?_eq]

theorem wellFormed (hd : d.WellFormed) : e.WellFormed := by
  obtain ⟨_, hgrows, hputs⟩ := h
  exact hputs.wellFormed (hgrows.wellFormed hd)

/-- Where a path led nowhere, an old file is lost only behind a new folder: the path goes into it and back. -/
theorem goesBack (hd : d.WellFormed) (habsent : d.isPresent path = false) (hp : d.content? p ≠ none) :
    Path.goesBack path = true ∧ ∀ s, d.locate path ≠ .ok s := by
  obtain ⟨made, hgrows, x, hlocate, hslash, hshort, -⟩ := h
  obtain ⟨c, hcontent⟩ := Option.ne_none_iff_exists'.1 hp
  obtain ⟨y, hfile⟩ := content?_eq_some_iff.1 hcontent
  have hnowhere : ∀ s, d.locate path ≠ .ok s := by
    intro s hs
    -- folders stay, so the path would have led to the old file
    have hsame := (hgrows.keepsFolders.locate hs).symm.trans hlocate
    rw [Except.ok.inj hsame] at hs
    rw [isPresent, find_file hs hslash hshort hfile] at habsent
    cases habsent
  refine ⟨Bool.of_not_eq_false fun hback => ?_, hnowhere⟩
  exact hnowhere _ (locate_of_locate hd hgrows.keepsFolders.workingFolder hback hlocate
    (hfile ▸ Option.some_ne_none _))

end Saved

end Disk

end Watermark
