import Watermark.Config.Basic
import Watermark.Storage.Basic

/-!
# The configuration file

The file has one place that follows from the environment. A file that is missing or cannot be read means the
initial configuration, so loading never fails.
-/

namespace Watermark

/-- The variables of the environment, none for those that are not set. -/
abbrev Environment := Text → Option Text

namespace Config

/-- The folder of all configurations: `XDG_CONFIG_HOME`, or `.config` in the home folder. -/
def folder (env : Environment) : Text :=
  match env "XDG_CONFIG_HOME".toList with
  | some f => f
  | none => Path.join ((env "HOME".toList).getD "/tmp".toList) ".config".toList

/-- Where the configuration is kept. -/
def path (env : Environment) : Text :=
  Path.join (Path.join (folder env) "wmforge".toList) "config.json".toList

variable {m : Type → Type} [Monad m] [Storage m]

/-- The configuration of a file, the initial one where there is none that can be read. -/
def load (path : Text) : m Config := do
  if ← Storage.isPresent path then
    match ← Storage.read path with
    | .error _ => return initial
    | .ok t =>
      match ofJson t with
      | .error _ => return initial
      | .ok c => return c
  else return initial

/-- Writes the configuration to a file and makes the folders of the file first. -/
def save (c : Config) (path : Text) : m (Except StorageFault Unit) := do
  match ← Storage.createFolders ((Path.parent? path).getD []) with
  | .error f => return .error f
  | .ok () => Storage.write path c.toJson.pretty

end Config

end Watermark
