import Watermark.Storage.Basic

/-!
# A disk in memory

A `Disk` maps places to folders and files. A place has the names on the way from the root. A path leads
to one in two steps: a walk along all names but the last, each of which has to be a folder (`Disk.walk`), and then
the last name in the folder where the walk ends (`Disk.locate`). What the last name may be depends on the operation.

Every operation either does all it should or fails and leaves the disk as it was.
-/

namespace Watermark

/-- The names on the way from the root. Places of different depth are told apart at once. -/
abbrev Place := Array Text

/-- What a file holds. -/
inductive Content where
  | text (t : Text)
  /-- Bytes that are not valid UTF-8. -/
  | notText
deriving DecidableEq

/-- What stands at a place. -/
inductive Node where
  | folder
  | file (content : Content) (executable : Bool)
deriving DecidableEq

/-- The root, which is always there, and what stands at other places. -/
structure Disk where
  entries : List (Place × Node)
  /-- Where relative paths begin. -/
  workingFolder : Place
deriving DecidableEq

/-- Where a path ends. -/
inductive Spot where
  /-- At a folder that it has no name for: behind `.` or `..`, or at the root. -/
  | folder (place : Place)
  /-- At a name in a folder, whether or not something stands there. -/
  | entry (place : Place) (name : Text)
deriving DecidableEq

namespace Disk

/-- A disk with nothing but the working folder and those above it. -/
def empty (workingFolder : Place) : Disk :=
  ⟨(List.range (workingFolder.size + 1)).map fun n => (workingFolder.take n, .folder), workingFolder⟩

/-- What stands at a place. -/
def at? (d : Disk) (p : Place) : Option Node := if p.isEmpty then some .folder else d.entries.lookup p

/-- The disk with something at a place. -/
def put (d : Disk) (p : Place) (n : Node) : Disk :=
  { d with entries := (p, n) :: d.entries.filter fun e => e.1 != p }

/-! ## Paths on a disk -/

/-- Names have at most 255 bytes. -/
def nameLimit : Nat := 255

/-- Paths have at most 4095 bytes. -/
def pathLimit : Nat := 4095

/-- How many bytes a text has in UTF-8. -/
def bytes (t : Text) : Nat := (String.ofList t).utf8ByteSize

/-- Where a path begins. -/
def base (d : Disk) (path : Text) : Place := if Path.isAbsolute path then #[] else d.workingFolder

/-- Where a name leads from a place. The folder above the root is the root. -/
def spot (p : Place) (name : Text) : Spot :=
  if name = ".".toList then .folder p
  else if name = "..".toList then .folder p.pop
  else .entry p name

/-- What stands where a path ends. -/
def look (d : Disk) : Spot → Except StorageFault (Option Node)
  | .folder _ => .ok (some .folder)
  | .entry p name => if nameLimit < bytes name then .error .tooLong else .ok (d.at? (p.push name))

/-- The folder that a name leads to. -/
def enter (d : Disk) (p : Place) (name : Text) : Except StorageFault Place := do
  match spot p name with
  | .folder q => return q
  | .entry _ _ =>
    match ← d.look (.entry p name) with
    | some .folder => return p.push name
    | some (.file ..) => throw .notFolder
    | none => throw .notFound

/-- The folder that names lead to, one after the other. -/
def walk (d : Disk) (p : Place) (names : List Text) : Except StorageFault Place := names.foldlM d.enter p

/-- Where a path ends. The empty path leads nowhere. -/
def locate (d : Disk) (path : Text) : Except StorageFault Spot := do
  if path.contains '\x00' then throw .notPath
  if pathLimit < bytes path then throw .tooLong
  if path.isEmpty then throw .notFound
  let names := Path.names path
  let p ← d.walk (d.base path) names.dropLast
  return match names.getLast? with
    | none => .folder p
    | some name => spot p name

/-- What stands where a path leads to. A slash at the end of the path asks for a folder. -/
def find (d : Disk) (path : Text) : Except StorageFault Node := do
  match ← d.look (← d.locate path) with
  | none => throw .notFound
  | some .folder => return .folder
  | some file => if Path.endsInSlash path then throw .notFolder else return file

/-! ## Operations -/

def isPresent (d : Disk) (path : Text) : Bool := (d.find path).toOption.isSome

def isFolder (d : Disk) (path : Text) : Bool := (d.find path).toOption = some .folder

def read (d : Disk) (path : Text) : Except StorageFault Text := do
  match ← d.find path with
  | .folder => throw .isFolder
  | .file (.text t) _ => return t
  | .file .notText _ => throw .notText

def makeFolder (d : Disk) (path : Text) : Except StorageFault Disk := do
  match ← d.locate path with
  | .folder _ => throw .alreadyExists
  | .entry p name =>
    match ← d.look (.entry p name) with
    | some _ => throw .alreadyExists
    | none => return d.put (p.push name) .folder

/-- Makes a file or replaces what it holds; whether it may be executed stays. A path with a slash at its end never
means a file. -/
def writeContent (d : Disk) (path : Text) (c : Content) : Except StorageFault Disk := do
  match ← d.locate path with
  | .folder _ => throw .isFolder
  | .entry p name =>
    if Path.endsInSlash path then throw .isFolder
    match ← d.look (.entry p name) with
    | some .folder => throw .isFolder
    | some (.file _ executable) => return d.put (p.push name) (.file c executable)
    | none => return d.put (p.push name) (.file c false)

def write (d : Disk) (path text : Text) : Except StorageFault Disk := d.writeContent path (.text text)

/-- Lets everyone execute a file. Every folder may be entered already. A disk has no owners, so whoever can write a
file can also let everyone execute it, which the machine may refuse. -/
def allowExecution (d : Disk) (path : Text) : Except StorageFault Disk := do
  match ← d.locate path, ← d.find path with
  | .entry p name, .file c _ => return d.put (p.push name) (.file c true)
  | _, _ => return d

/-- An operation that changes the disk if it succeeds. -/
def change (f : Disk → Except StorageFault Disk) : StateM Disk (Except StorageFault Unit) := fun d =>
  match f d with
  | .ok e => (.ok (), e)
  | .error fault => (.error fault, d)

instance : Storage (StateM Disk) where
  isPresent path := return (← get).isPresent path
  isFolder path := return (← get).isFolder path
  read path := return (← get).read path
  makeFolder path := change fun d => d.makeFolder path
  write path text := change fun d => d.write path text
  allowExecution path := change fun d => d.allowExecution path

end Disk

end Watermark
