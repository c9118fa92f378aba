import Watermark.Settings.Basic
import Watermark.Number.Notation

/-!
# What the assistant is told

Every question goes to the assistant with one line about the settings. It is coarse on purpose: mode, extension,
speed and resolution, and nothing of the command itself.
-/

namespace Watermark.Settings

def modeName (s : Settings) : Text := if s.batch then "Batch Mode".toList else "Single Mode".toList

/-- The settings in one line. -/
def summary (s : Settings) : Text :=
  '[' :: s.modeName ++ "] Processing ".toList ++ s.extension ++ " files. Speed: ".toList ++ s.videoSpeed.plain
    ++ "x. Resolution: ".toList ++ Choice.word s.resolution ++ ".".toList

end Watermark.Settings
