import Watermark.Proofs.Storage.Disk

/-!
# Disks where everything stands in a folder

The operations keep a disk so (`Disk.WellFormed.put`), since they put something in a folder only. On such a disk the
folders above anything are all there. So if a path leads to something that is there already, once folders have been
made for the path, then it has led there before, unless it goes into a folder and back (`Disk.locate_of_locate`).
-/

namespace Watermark

namespace Path

/-- A name that every folder has: the folder itself or the one above. -/
def isDots (name : Text) : Bool := name == ".".toList || name == "..".toList

/-- Whether the way to a file goes through a folder and back. Going back at the beginning is no such thing: it leads
to a folder that is there. -/
def goesBack (path : Text) : Bool := ((names path).dropLast.dropWhile isDots).contains "..".toList

example : goesBack "new/../edit.json".toList = true ∧ goesBack "../new/edit.json".toList = false := by decide

end Path

namespace Disk

variable {d e : Disk} {p q r : Place} {n : Node} {path t name : Text} {names : List Text}

/-- Relative paths begin at a folder, and everything stands in a folder. -/
structure WellFormed (d : Disk) : Prop where
  workingFolder : d.at? d.workingFolder = some .folder
  closed {p : Place} {name : Text} : d.at? (p.push name) ≠ none → d.at? p = some .folder

theorem lookup_folders (ps : List Place) :
    (ps.map fun q => (q, Node.folder)).lookup p = if p ∈ ps then some .folder else none := by
  induction ps with
  | nil => rfl
  | cons q ps ih =>
    rw [List.map_cons, List.lookup_cons, ih]
    by_cases h : p = q
    · simp [h]
    · simp [h, beq_false_of_ne h]

/-- On the empty disk there are the working folder and those above it. -/
theorem at?_empty (w p : Place) :
    (empty w).at? p = if p ∈ (List.range (w.size + 1)).map w.take then some .folder else none := by
  have hroot : #[] ∈ (List.range (w.size + 1)).map w.take :=
    List.mem_map.2 ⟨0, List.mem_range.2 (Nat.succ_pos _), by simp⟩
  have hlookup := lookup_folders (p := p) ((List.range (w.size + 1)).map w.take)
  rw [List.map_map] at hlookup
  unfold at?
  split
  · next h => rw [Array.isEmpty_iff.1 h, if_pos hroot]
  · exact hlookup

theorem wellFormed_empty (w : Place) : (empty w).WellFormed where
  workingFolder := by
    have hself : w ∈ (List.range (w.size + 1)).map w.take :=
      List.mem_map.2 ⟨w.size, List.mem_range.2 (Nat.lt_succ_self _), by simp⟩
    exact (at?_empty w w).trans (if_pos hself)
  closed {p name} h := by
    rw [at?_empty] at h ⊢
    obtain ⟨k, hk, htake⟩ := List.mem_map.1 (Decidable.of_not_not fun habsent => h (if_neg habsent))
    refine if_pos (List.mem_map.2 ⟨k - 1, ?_, Array.ext' ?_⟩)
    · exact List.mem_range.2 (Nat.lt_of_le_of_lt (Nat.sub_le k 1) (List.mem_range.1 hk))
    · have hle : k ≤ w.toList.length := Nat.le_of_lt_succ (List.mem_range.1 hk)
      have htaken (i : Nat) : (w.take i).toList = w.toList.take i := by simp
      have hpop : (w.take k).pop.toList = (w.toList.take k).dropLast := by rw [Array.toList_pop, htaken]
      calc (w.take (k - 1)).toList = (w.toList.take k).dropLast := by
            rw [htaken, List.dropLast_eq_take, List.length_take, List.take_take, Nat.min_eq_left hle,
              Nat.min_eq_left (Nat.sub_le k 1)]
        _ = p.toList := by rw [← hpop, htake, Array.pop_push]

theorem eq_of_spot (h : spot r t = .entry q name) : r = q := by
  rcases spot_cases r t with ⟨-, hspot⟩ | ⟨-, hspot⟩ | hspot
  · cases hspot.symm.trans h
  · cases hspot.symm.trans h
  · cases hspot.symm.trans h
    rfl

/-- A path that ends at a name walks to the folder of that name; the rest is the same on any disk. -/
theorem locate_eq_entry_iff : d.locate path = .ok (.entry q name) ↔
    d.walk (d.base path) (Path.names path).dropLast = .ok q
      ∧ (path.contains '\x00' = false ∧ bytes path ≤ pathLimit ∧ path.isEmpty = false)
      ∧ (Path.names path).getLast?.elim (.folder q) (spot q) = .entry q name := by
  rw [locate_eq_ok_iff]
  constructor
  · rintro ⟨hpath, r, hwalk, hs⟩
    obtain rfl : r = q := by
      cases hlast : (Path.names path).getLast? with
      | none =>
        rw [hlast] at hs
        cases hs
      | some last =>
        rw [hlast] at hs
        exact eq_of_spot hs
    exact ⟨hwalk, hpath, hs⟩
  · rintro ⟨hwalk, hpath, hs⟩
    exact ⟨hpath, q, hwalk, hs⟩

namespace WellFormed

variable (hd : d.WellFormed)
include hd

theorem base (path : Text) : d.at? (d.base path) = some .folder := by
  unfold Disk.base
  split
  · rfl
  · exact hd.workingFolder

theorem pop (h : d.at? p = some .folder) : d.at? p.pop = some .folder := by
  by_cases hsize : p.size = 0
  · rw [Array.eq_empty_of_size_eq_zero hsize]
    rfl
  · obtain ⟨q, name, rfl⟩ := Array.eq_push_of_size_ne_zero hsize
    rw [Array.pop_push]
    exact hd.closed (by rw [h]; nofun)

theorem enter (hp : d.at? p = some .folder) (h : d.enter p name = .ok q) : d.at? q = some .folder := by
  obtain hspot | ⟨-, -, hfolder, rfl⟩ := enter_eq_ok_iff.1 h
  · rcases spot_cases p name with ⟨-, hdot⟩ | ⟨-, hdots⟩ | hentry
    · cases hdot.symm.trans hspot
      exact hp
    · cases hdots.symm.trans hspot
      exact hd.pop hp
    · cases hentry.symm.trans hspot
  · exact hfolder

/-- A walk that begins at a folder ends at one. -/
theorem walk (hp : d.at? p = some .folder) (h : d.walk p names = .ok q) : d.at? q = some .folder := by
  induction names generalizing p with
  | nil =>
    cases h
    exact hp
  | cons name names ih =>
    obtain ⟨r, henter, hwalk⟩ := walk_cons_eq_ok_iff.1 h
    exact ih (hd.enter hp henter) hwalk

/-- A path ends at a name in a folder. -/
theorem locate (h : d.locate path = .ok (.entry q name)) : d.at? q = some .folder :=
  hd.walk (hd.base path) (locate_eq_entry_iff.1 h).1

theorem put (hq : d.at? q = some .folder) (hp : d.at? (q.push name) ≠ some .folder) :
    (d.put (q.push name) n).WellFormed where
  workingFolder := (keepsFolders_put hp).folder hd.workingFolder
  closed {r name'} h := by
    refine (keepsFolders_put hp).folder ?_
    by_cases hr : r.push name' = q.push name
    · obtain ⟨-, rfl⟩ := Array.push_eq_push.1 hr
      exact hq
    · rw [at?_put_of_ne hr] at h
      exact hd.closed h

end WellFormed

theorem wellFormed_file (name : Text) (c : Content) (x : Bool) :
    ((empty #[]).put #[name] (.file c x)).WellFormed := by
  have hfree : (empty #[]).at? (Array.push #[] name) ≠ some .folder := by
    rw [at?_empty]
    simp
  exact (wellFormed_empty #[]).put rfl hfree

/-! ## Ways that are there already -/

/-- The folder at hand and the one above are reached on every disk. -/
theorem walk_dots (h : ∀ name ∈ names, Path.isDots name = true) :
    ∃ q, ∀ d : Disk, d.walk p names = .ok q := by
  induction names generalizing p with
  | nil => exact ⟨p, fun _ => rfl⟩
  | cons name names ih =>
    obtain ⟨hname, hnames⟩ := List.forall_mem_cons.1 h
    have hspot : ∃ r, spot p name = .folder r := by
      unfold spot
      rcases Bool.or_eq_true_iff.1 hname with hdot | hdots
      · exact ⟨p, if_pos (eq_of_beq hdot)⟩
      · rw [eq_of_beq hdots]
        exact ⟨p.pop, rfl⟩
    obtain ⟨r, hr⟩ := hspot
    obtain ⟨q, hq⟩ := ih (p := r) hnames
    exact ⟨q, fun d => walk_cons_eq_ok_iff.2 ⟨r, enter_eq_ok_iff.2 (.inl hr), hq d⟩⟩

/-- A walk that never goes back and ends at a folder of `d` goes through folders of `d` only. -/
theorem walk_of_walk (hd : d.WellFormed) (hback : "..".toList ∉ names) (h : e.walk p names = .ok q)
    (hq : d.at? q = some .folder) : d.walk p names = .ok q ∧ d.at? p = some .folder := by
  induction names generalizing p with
  | nil =>
    cases h
    exact ⟨rfl, hq⟩
  | cons name names ih =>
    rw [List.mem_cons, not_or] at hback
    obtain ⟨r, henter, hrest⟩ := walk_cons_eq_ok_iff.1 h
    obtain ⟨hwalk, hr⟩ := ih hback.2 hrest
    rw [walk_cons_eq_ok_iff]
    obtain hspot | ⟨hspot, hshort, -, rfl⟩ := enter_eq_ok_iff.1 henter
    · obtain rfl : p = r := by
        rcases spot_cases p name with ⟨-, hdot⟩ | ⟨hdots, -⟩ | hentry
        · exact Spot.folder.inj (hdot.symm.trans hspot)
        · exact absurd hdots.symm hback.1
        · cases hentry.symm.trans hspot
      exact ⟨⟨p, enter_eq_ok_iff.2 (.inl hspot), hwalk⟩, hr⟩
    · exact ⟨⟨_, enter_eq_ok_iff.2 (.inr ⟨hspot, hshort, hr, rfl⟩), hwalk⟩, hd.closed (by rw [hr]; nofun)⟩

/-- A path that does not go back and leads, on a larger disk, to a place that is taken on `d` leads there on `d`. -/
theorem locate_of_locate (hd : d.WellFormed) (hfolder : e.workingFolder = d.workingFolder)
    (hback : Path.goesBack path = false) (h : e.locate path = .ok (.entry q name)) (hq : d.at? (q.push name) ≠ none) :
    d.locate path = .ok (.entry q name) := by
  obtain ⟨hwalk, hrest⟩ := locate_eq_entry_iff.1 h
  refine locate_eq_entry_iff.2 ⟨?_, hrest⟩
  have hbase : e.base path = d.base path := by rw [base, base, hfolder]
  have hsplit := List.takeWhile_append_dropWhile (p := Path.isDots) (l := (Path.names path).dropLast)
  -- the names in front lead to one folder on both disks, and behind it the way does not go back
  obtain ⟨r, hr⟩ := walk_dots (p := d.base path) (List.all_eq_true.1 (List.all_takeWhile (p := Path.isDots)))
  rw [hbase, ← hsplit, walk_append, hr e] at hwalk
  rw [← hsplit, walk_append, hr d]
  have hback' : "..".toList ∉ (Path.names path).dropLast.dropWhile Path.isDots := by
    intro hmem
    rw [Path.goesBack, List.contains_iff_mem.2 hmem] at hback
    cases hback
  exact (walk_of_walk hd hback' hwalk (hd.closed hq)).1

end Disk

end Watermark
