import Watermark.Storage.Path

/-!
# Storage

The commands need six operations on files and folders. `Storage m` provides them with the effects of `m`: in a pure
disk (`Watermark.Storage.Disk`) or in the file system of the machine. Files hold text; one that is not valid UTF-8
cannot be read. An operation does all that it should, or fails and changes nothing.

`Storage.createFolders` is built on these. It makes one folder after the other, so the folders that it has made stay
when a later one fails.
-/

namespace Watermark

/-- Why an operation on a file failed. -/
inductive StorageFault where
  | notFound
  /-- A folder stands where a file is meant. -/
  | isFolder
  /-- A file stands where a folder is needed. -/
  | notFolder
  /-- Something stands where a folder should be made. -/
  | alreadyExists
  /-- The file is not valid UTF-8. -/
  | notText
  /-- The path or a name on its way has too many bytes. -/
  | tooLong
  /-- The path holds a character that no path can hold. -/
  | notPath
  /-- Anything else, as the system calls it. -/
  | other (detail : Text)
deriving DecidableEq

def StorageFault.message : StorageFault → Text
  | notFound => "No such file or directory".toList
  | isFolder => "Is a directory".toList
  | notFolder => "Not a directory".toList
  | alreadyExists => "File exists".toList
  | notText => "stream did not contain valid UTF-8".toList
  | tooLong => "File name too long".toList
  | notPath => "file name contained an unexpected NUL byte".toList
  | other detail => detail

/-- Files and folders, reached with the effects of `m`. -/
class Storage (m : Type → Type) where
  /-- Whether there is a file or folder at the path. -/
  isPresent (path : Text) : m Bool
  /-- Whether there is a folder at the path. -/
  isFolder (path : Text) : m Bool
  /-- The text of a file. -/
  read (path : Text) : m (Except StorageFault Text)
  /-- Makes a folder in a folder that is there already. -/
  makeFolder (path : Text) : m (Except StorageFault Unit)
  /-- Makes a file or replaces its text. -/
  write (path text : Text) : m (Except StorageFault Unit)
  /-- Lets everyone execute a file. -/
  allowExecution (path : Text) : m (Except StorageFault Unit)

namespace Storage

/-- The same files with further state beside them. -/
instance {σ : Type} {m : Type → Type} [Monad m] [Storage m] : Storage (StateT σ m) where
  isPresent path := liftM (Storage.isPresent path : m _)
  isFolder path := liftM (Storage.isFolder path : m _)
  read path := liftM (Storage.read path : m _)
  makeFolder path := liftM (Storage.makeFolder path : m _)
  write path text := liftM (Storage.write path text : m _)
  allowExecution path := liftM (Storage.allowExecution path : m _)

/-! ## Folders on the way -/

variable {m : Type → Type} [Monad m] [Storage m]

/-- Makes a folder unless there is one. -/
def ensureFolder (path : Text) : m (Except StorageFault Unit) := do
  match ← makeFolder path with
  | .error .alreadyExists => return if ← isFolder path then .ok () else .error .alreadyExists
  | result => return result

/-- Makes the first folder of the list; the others stand above it and are made first where it has no place yet. -/
def ensureFolders : List Text → m (Except StorageFault Unit)
  | [] => return .ok ()
  | path :: above => do
    match ← ensureFolder path with
    | .error .notFound =>
      match ← ensureFolders above with
      | .error f => return .error f
      | .ok () => ensureFolder path
    | result => return result

/-- Makes a folder and those above it, as far as they are missing. The empty path is there already. -/
def createFolders (path : Text) : m (Except StorageFault Unit) := ensureFolders (Path.ancestors path)

end Storage

end Watermark
