import Watermark.Settings.Basic

/-!
# Repairing settings

Compiling never refuses settings. Instead `Settings.sanitized` brings every field into the range that a command
can express, and leaves alone what is already there. Offsets, options and the mode have no bad values.
-/

namespace Watermark

namespace Binary64

/-- The number itself where it is finite and above 0, else 1. -/
def positiveOrOne (x : Binary64) : Binary64 := if x.isFinite && x.isPositive then x else one

/-- The number itself where it is finite and above 0, else 0. -/
def finiteOrZero (x : Binary64) : Binary64 := if x.isFinite then x.orZero else zero

/-- The nearest number from 0 to 1; 1 for infinities and not-a-number. -/
def asOpacity (x : Binary64) : Binary64 := if x.isFinite then clamp zero one x else one

end Binary64

namespace Extension

/-- The characters of an extension. It stands unquoted in globs and in messages of a script, so it holds nothing
that a shell would interpret. -/
def allowed (c : Char) : Bool := c.isAlphanum || c == '.' || c == '_' || c == '-'

/-- The allowed characters of a text from the first that is no dot, or the usual extension where there is none. -/
def normalize (t : Text) : Text :=
  match (t.filter allowed).dropWhile (· == '.') with
  | [] => Settings.defaultExtension
  | e => e

end Extension

namespace Settings

/-- A folder name, or `fallback` where there are only blanks. -/
def folderOr (fallback t : Text) : Text := if t.allBlank then fallback else t

/-- The settings with every field in the range that a command can express. -/
def sanitized (s : Settings) : Settings :=
  { s with
    opacity := s.opacity.asOpacity
    scale := s.scale.positiveOrOne
    startTime := s.startTime.finiteOrZero
    endTime := s.endTime.finiteOrZero
    videoSpeed := s.videoSpeed.positiveOrOne
    inputFolder := folderOr defaultInputFolder s.inputFolder
    outputFolder := folderOr defaultOutputFolder s.outputFolder
    extension := Extension.normalize s.extension }

end Settings

end Watermark
