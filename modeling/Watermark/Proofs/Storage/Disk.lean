import Watermark.Storage.Disk

/-!
# A file is read as it was written

Writing puts a node where no folder stood, so every folder stays (`Disk.keepsFolders_put`). Where folders stay, a path
ends at the same spot (`Disk.KeepsFolders.locate`), and what is found there is the file that was written
(`Disk.Puts.find`).
-/

namespace Watermark.Disk

variable {d e : Disk} {p q : Place} {n : Node} {path t : Text}

/-! ## Nodes -/

theorem at?_push (name : Text) : d.at? (p.push name) = d.entries.lookup (p.push name) := by
  simp [at?]

theorem at?_put_push (name : Text) : (d.put (p.push name) n).at? (p.push name) = some n := by
  rw [at?_push, put, List.lookup_cons_self]

/-- What stands at other places stays. -/
theorem at?_put_of_ne (h : q ≠ p) : (d.put p n).at? q = d.at? q := by
  have hlookup : ∀ es : List (Place × Node), (es.filter fun e => e.1 != p).lookup q = es.lookup q := by
    intro es
    induction es with
    | nil => rfl
    | cons e es ih =>
      rw [List.filter_cons]
      split
      · rw [List.lookup_cons, List.lookup_cons, ih]
      · rename_i he
        have hp : e.1 = p := by simpa using he
        have hne : (q == e.1) = false := by simpa [hp] using h
        rw [ih, List.lookup_cons, hne]
  have hne : (q == p) = false := by simpa using h
  rw [at?, at?, put, List.lookup_cons, hne, hlookup]

/-! ## Ways -/

theorem spot_cases (p : Place) (name : Text) :
    name = ".".toList ∧ spot p name = .folder p ∨ name = "..".toList ∧ spot p name = .folder p.pop
      ∨ spot p name = .entry p name := by
  unfold spot
  split
  · next h => exact .inl ⟨h, rfl⟩
  · split
    · next h => exact .inr (.inl ⟨h, rfl⟩)
    · exact .inr (.inr rfl)

theorem look_eq_ok_iff {name : Text} {node : Option Node} :
    d.look (.entry p name) = .ok node ↔ bytes name ≤ nameLimit ∧ d.at? (p.push name) = node := by
  rw [look]
  split
  · next hlong => simp [Nat.not_le.2 hlong]
  · next hshort => simp [Nat.not_lt.1 hshort]

/-- A name leads on in two cases: it has no place of its own, or a folder stands there. -/
theorem enter_eq_ok_iff {name : Text} :
    d.enter p name = .ok q ↔ spot p name = .folder q
      ∨ spot p name = .entry p name ∧ bytes name ≤ nameLimit ∧ d.at? (p.push name) = some .folder
        ∧ q = p.push name := by
  have hspot : (∃ r, spot p name = .folder r) ∨ spot p name = .entry p name := by
    rcases spot_cases p name with ⟨-, h⟩ | ⟨-, h⟩ | h
    · exact .inl ⟨_, h⟩
    · exact .inl ⟨_, h⟩
    · exact .inr h
  unfold enter
  obtain ⟨r, hr⟩ | hentry := hspot
  · rw [hr]
    simp [pure, Except.pure]
  · rw [hentry, look]
    by_cases hlong : nameLimit < bytes name
    · simp [hlong, Nat.not_le.2 hlong, bind, Except.bind]
    · rw [if_neg hlong]
      cases hnode : d.at? (p.push name) with
      | none => simp [bind, Except.bind, throw, throwThe, MonadExceptOf.throw]
      | some node =>
        cases node <;>
          simp [bind, Except.bind, throw, throwThe, MonadExceptOf.throw, pure, Except.pure, Nat.not_lt.1 hlong, eq_comm]

theorem walk_cons_eq_ok_iff {name : Text} {names : List Text} :
    d.walk p (name :: names) = .ok q ↔ ∃ r, d.enter p name = .ok r ∧ d.walk r names = .ok q := by
  rw [walk, List.foldlM_cons]
  cases d.enter p name with
  | error f => exact ⟨nofun, fun ⟨_, h, _⟩ => nomatch h⟩
  | ok r => exact ⟨fun h => ⟨r, rfl, h⟩, fun ⟨_, hr, h⟩ => Except.ok.inj hr ▸ h⟩

theorem walk_append (d : Disk) (p : Place) (names names' : List Text) :
    d.walk p (names ++ names') = d.walk p names >>= fun q => d.walk q names' :=
  List.foldlM_append

/-- A path that can lead somewhere ends at its last name, behind a walk along the others. -/
theorem locate_eq (d : Disk) (path : Text) :
    d.locate path = if path.contains '\x00' then .error .notPath
      else if pathLimit < bytes path then .error .tooLong
      else if path.isEmpty then .error .notFound
      else (d.walk (d.base path) (Path.names path).dropLast).map fun p =>
        (Path.names path).getLast?.elim (.folder p) (spot p) := by
  unfold locate
  split
  · rfl
  split
  · rfl
  split
  · rfl
  dsimp only
  cases d.walk (d.base path) (Path.names path).dropLast <;> cases (Path.names path).getLast? <;> rfl

theorem locate_eq_ok_iff {s : Spot} : d.locate path = .ok s ↔
    (path.contains '\x00' = false ∧ bytes path ≤ pathLimit ∧ path.isEmpty = false)
      ∧ ∃ r, d.walk (d.base path) (Path.names path).dropLast = .ok r
        ∧ (Path.names path).getLast?.elim (.folder r) (spot r) = s := by
  rw [locate_eq]
  split
  · next h => simp only [h, Bool.true_eq_false, false_and, reduceCtorEq]
  next hnul =>
  split
  · next h => simp only [Nat.not_le.2 h, false_and, and_false, reduceCtorEq]
  next hshort =>
  split
  · next h => simp only [h, Bool.true_eq_false, false_and, and_false, reduceCtorEq]
  next hempty =>
  rw [Bool.not_eq_true] at hnul hempty
  rw [and_iff_right ⟨hnul, Nat.not_lt.1 hshort, hempty⟩]
  cases d.walk (d.base path) (Path.names path).dropLast <;> simp [Except.map]

/-- From `d` to `e` every folder stays, and relative paths begin at the same place. -/
structure KeepsFolders (d e : Disk) : Prop where
  workingFolder : e.workingFolder = d.workingFolder
  folder {q : Place} : d.at? q = some .folder → e.at? q = some .folder

/-- No folder is lost where something is put in the place of none. -/
theorem keepsFolders_put (hp : d.at? p ≠ some .folder) : KeepsFolders d (d.put p n) := by
  refine ⟨rfl, fun {q} h => ?_⟩
  have hne : q ≠ p := by
    rintro rfl
    exact hp h
  rw [at?_put_of_ne hne, h]

namespace KeepsFolders

variable (hkeeps : KeepsFolders d e)
include hkeeps

theorem enter {r : Place} {name : Text} (h : d.enter q name = .ok r) : e.enter q name = .ok r := by
  rw [enter_eq_ok_iff] at h ⊢
  exact h.imp_right fun ⟨hspot, hshort, hfolder, hr⟩ => ⟨hspot, hshort, hkeeps.folder hfolder, hr⟩

theorem walk {names : List Text} {r : Place} (h : d.walk q names = .ok r) : e.walk q names = .ok r := by
  induction names generalizing q with
  | nil => exact h
  | cons name names ih =>
    obtain ⟨q', henter, hwalk⟩ := walk_cons_eq_ok_iff.1 h
    exact walk_cons_eq_ok_iff.2 ⟨q', hkeeps.enter henter, ih hwalk⟩

theorem base_eq (path : Text) : e.base path = d.base path := by
  rw [base, base, hkeeps.workingFolder]

/-- Where all folders stay, a path ends at the same spot. -/
theorem locate {s : Spot} (h : d.locate path = .ok s) : e.locate path = .ok s := by
  obtain ⟨hpath, r, hwalk, hs⟩ := locate_eq_ok_iff.1 h
  refine locate_eq_ok_iff.2 ⟨hpath, r, ?_, hs⟩
  rw [hkeeps.base_eq]
  exact hkeeps.walk hwalk

end KeepsFolders

/-! ## Files -/

/-- A file is found where a path ends. -/
theorem find_file {name : Text} {c : Content} {x : Bool} (hlocate : d.locate path = .ok (.entry p name))
    (hslash : Path.endsInSlash path = false) (hshort : bytes name ≤ nameLimit)
    (hfile : d.at? (p.push name) = some (.file c x)) : d.find path = .ok (.file c x) := by
  rw [find, hlocate]
  show (d.look (.entry p name) >>= _) = _
  rw [look_eq_ok_iff.2 ⟨hshort, hfile⟩]
  show (if Path.endsInSlash path = true then throw StorageFault.notFolder else pure (Node.file c x)) = Except.ok _
  rw [hslash]
  rfl

/-- A file with a text is put at the place where a path ends, and no folder was there. -/
inductive Puts (d : Disk) (path t : Text) : Place → Disk → Prop
  | intro {q : Place} {name : Text} (x : Bool) (locate : d.locate path = .ok (.entry q name))
      (slash : Path.endsInSlash path = false) (short : bytes name ≤ nameLimit)
      (notFolder : d.at? (q.push name) ≠ some .folder) :
      Puts d path t (q.push name) (d.put (q.push name) (.file (.text t) x))

theorem exists_puts (h : d.write path t = .ok e) : ∃ p, d.Puts path t p e := by
  unfold write writeContent at h
  cases hlocate : d.locate path with
  | error f =>
    rw [hlocate] at h
    cases h
  | ok s =>
    rw [hlocate] at h
    cases s with
    | folder q => cases h
    | entry q name =>
      dsimp only [bind, Except.bind] at h
      split at h
      · cases h
      · next hslash =>
        have hslash := Bool.eq_false_iff.2 hslash
        cases hlook : d.look (.entry q name) with
        | error f =>
          rw [hlook] at h
          cases h
        | ok node =>
          obtain ⟨hshort, hnode⟩ := look_eq_ok_iff.1 hlook
          rw [hlook] at h
          rcases node with - | - | ⟨c, x⟩
          · cases h
            exact ⟨q.push name, .intro false hlocate hslash hshort (by rw [hnode]; nofun)⟩
          · cases h
          · cases h
            exact ⟨q.push name, .intro x hlocate hslash hshort (by rw [hnode]; nofun)⟩

namespace Puts

variable (h : d.Puts path t p e)
include h

/-- What was written is found. -/
theorem find : ∃ x, e.find path = .ok (.file (.text t) x) := by
  obtain ⟨x, hlocate, hslash, hshort, hfolder⟩ := h
  exact ⟨x, find_file ((keepsFolders_put hfolder).locate hlocate) hslash hshort (at?_put_push _)⟩

/-- A file is read as it was written. -/
theorem read : e.read path = .ok t := by
  obtain ⟨x, hfind⟩ := h.find
  rw [Disk.read, hfind]
  rfl

theorem isPresent : e.isPresent path = true := by
  obtain ⟨x, hfind⟩ := h.find
  rw [Disk.isPresent, hfind]
  rfl

end Puts

/-! ## Operations with effects -/

theorem run_bind_of_run {α β : Type} {x : StateM Disk α} {k : α → StateM Disk β} {a : α} (h : x.run d = (a, e)) :
    (x >>= k).run d = (k a).run e := by
  rw [StateT.run_bind, h]
  rfl

theorem run_isPresent (path : Text) (d : Disk) :
    (Storage.isPresent path : StateM Disk Bool).run d = (d.isPresent path, d) := rfl

theorem run_read (path : Text) (d : Disk) :
    (Storage.read path : StateM Disk (Except StorageFault Text)).run d = (d.read path, d) := rfl

/-- An operation changes the disk and succeeds, or fails and leaves it. -/
theorem run_change (f : Disk → Except StorageFault Disk) (d : Disk) :
    (∃ e, f d = .ok e ∧ (change f).run d = (.ok (), e)) ∨ ∃ fault, (change f).run d = (.error fault, d) := by
  show (∃ e, f d = .ok e ∧ change f d = (.ok (), e)) ∨ ∃ fault, change f d = (.error fault, d)
  unfold change
  cases h : f d with
  | error fault => exact .inr ⟨fault, rfl⟩
  | ok e => exact .inl ⟨e, rfl, rfl⟩

theorem run_write (path t : Text) (d : Disk) :
    (∃ p e, (Storage.write path t : StateM Disk (Except StorageFault Unit)).run d = (.ok (), e) ∧ d.Puts path t p e)
      ∨ ∃ fault, (Storage.write path t : StateM Disk (Except StorageFault Unit)).run d = (.error fault, d) := by
  obtain ⟨e, hwrite, hrun⟩ | hfailed := run_change (fun d => d.write path t) d
  · obtain ⟨p, hputs⟩ := exists_puts hwrite
    exact .inl ⟨p, e, hrun, hputs⟩
  · exact .inr hfailed

end Watermark.Disk
