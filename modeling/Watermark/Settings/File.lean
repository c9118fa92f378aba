import Watermark.Problem
import Watermark.Settings.Json
import Watermark.Wording

/-!
# Settings files

Settings are kept in a file as JSON with a line for each field. Saving makes the folders of the file first.
-/

namespace Watermark

/-- Why a settings file could not be read or written. -/
inductive SettingsFileError where
  | storage (path : Text) (fault : StorageFault)
  | json (path : Text) (fault : Json.Fault)
deriving DecidableEq

namespace SettingsFileError

def message (w : Wording) : SettingsFileError → Text
  | storage path fault => "I/O error at ".toList ++ path ++ ": ".toList ++ w.storage fault
  | json path fault => "Parse error in ".toList ++ path ++ ": ".toList ++ w.json fault

/-- The problem that a command reports; a missing file has one of its own. -/
def problem (w : Wording) : SettingsFileError → Problem
  | storage path .notFound => .fileNotFound path
  | e => .settings (e.message w)

end SettingsFileError

namespace Settings

variable {m : Type → Type} [Monad m] [Storage m]

/-- The settings of a file. -/
def load (path : Text) : m (Except SettingsFileError Settings) := do
  match ← Storage.read path with
  | .error f => return .error (.storage path f)
  | .ok t =>
    match ofJson t with
    | .error f => return .error (.json path f)
    | .ok s => return .ok s

/-- Writes the settings to a file. -/
def save (s : Settings) (path : Text) : m (Except SettingsFileError Unit) := do
  let parent := (Path.parent? path).getD []
  match ← (if parent.isEmpty then pure (.ok ()) else Storage.createFolders parent) with
  | .error f => return .error (.storage parent f)
  | .ok () =>
    match ← Storage.write path s.toJson.pretty with
    | .error f => return .error (.storage path f)
    | .ok () => return .ok ()

end Settings

end Watermark
