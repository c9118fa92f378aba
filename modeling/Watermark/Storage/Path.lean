import Watermark.Text

/-!
# Paths

A path is text with slashes. It is kept as it was given, so that messages show it unchanged; only the questions
asked of it see its parts.

Two views of a path differ in the parts `.`. On the way to a file each of them is a step that stays in the folder at
hand (`names`), so `a/.` needs the folder `a`. Of the folders above a path (`parent?`, `ancestors`) they are no
part: above `a/b/.` comes `a`.
-/

namespace Watermark.Path

/-- Whether a path begins at the root. -/
def isAbsolute (p : Text) : Bool := p.head? == some '/'

/-- `child` below `base`; an absolute `child` stands for itself. -/
def join (base child : Text) : Text :=
  if isAbsolute child || base.isEmpty then child
  else if base.getLast? == some '/' then base ++ child
  else base ++ '/' :: child

/-! ## The way to a file -/

/-- The text between slashes. -/
def split : Text → List Text
  | [] => [[]]
  | '/' :: rest => [] :: split rest
  | c :: rest =>
    match split rest with
    | [] => [[c]]
    | part :: parts => (c :: part) :: parts

/-- The names on the way, `.` and `..` among them; nothing stands between two slashes in a row. -/
def names (p : Text) : List Text := (split p).filter fun name => !name.isEmpty

/-- Whether a path has a slash at its end, and so means a folder. -/
def endsInSlash (p : Text) : Bool := p.getLast? == some '/'

/-! ## The folders above -/

/-- A reversed path without the slashes and the parts `.` that it starts with. -/
def dropIdle : Text → Text
  | '/' :: rest => dropIdle rest
  | '.' :: '/' :: rest => dropIdle rest
  | t => t

theorem length_dropIdle_le (t : Text) : (dropIdle t).length ≤ t.length := by
  fun_induction dropIdle t with
  | case1 rest ih => exact Nat.le_trans ih (Nat.le_succ _)
  | case2 rest ih => exact Nat.le_trans ih (Nat.le_add_right _ 2)
  | case3 => exact Nat.le_refl _

/-- The path without its last part, none where there is no part. A relative path of one part has the empty path
as its parent. -/
def parent? (p : Text) : Option Text :=
  match dropIdle p.reverse with
  | [] => none
  | _ :: last =>
    match dropIdle (last.dropWhile (· != '/')) with
    | [] => some (if isAbsolute p then ['/'] else [])
    | rest => some rest.reverse

example : parent? "a//b/./c/".toList = some "a//b".toList := rfl

example : parent? "a/b/.".toList = some "a".toList ∧ parent? "x".toList = some [] := ⟨rfl, rfl⟩

example : parent? "/x".toList = some ['/'] ∧ parent? "/".toList = none := ⟨rfl, rfl⟩

/-- A parent is shorter than the path. -/
theorem length_parent?_lt {p q : Text} (h : parent? p = some q) : q.length < p.length := by
  have hle := length_dropIdle_le p.reverse
  rw [List.length_reverse] at hle
  simp only [parent?] at h
  split at h
  · cases h
  · next c last hlast =>
    rw [hlast, List.length_cons] at hle
    split at h
    · obtain rfl := Option.some.inj h
      split
      · next habs =>
        match p with
        | [] => cases habs
        | [d] =>
          obtain rfl : d = '/' := by simpa [isAbsolute] using habs
          cases hlast
        | _ :: _ :: _ => simp
      · exact Nat.lt_of_lt_of_le (Nat.succ_pos _) hle
    · obtain rfl := Option.some.inj h
      have hrest := length_dropIdle_le (last.dropWhile (· != '/'))
      have hsub := (List.dropWhile_sublist (l := last) (· != '/')).length_le
      rw [List.length_reverse]
      omega

/-- A path and the folders above it, the nearest first, without the empty path. -/
def ancestors (p : Text) : List Text :=
  if p.isEmpty then []
  else p :: match _h : parent? p with
    | none => []
    | some q => ancestors q
termination_by p.length
decreasing_by exact length_parent?_lt _h

end Watermark.Path
