import Watermark.Settings.Choice
import Watermark.Number.Binary64

/-!
# The settings of an edit

`Settings` is everything that a person chooses in the editor: how the watermark looks, which part of the source is
kept, how fast it plays, how it is framed, and whether one file or a whole folder is meant. Any value of any field
is allowed here; `Settings.sanitized` (`Watermark.Settings.Sanitize`) is the boundary where values that no editor
could produce are repaired, and `Settings.issues` (`Watermark.Settings.Issue`) reports them.

The module also says what the two times mean together: an end that is not after the start means that the source is
kept to its end (`Settings.trimWindow`).
-/

namespace Watermark

/-- An edit as the editor's controls describe it. -/
structure Settings where
  /-- Opacity of the watermark, from 0 to 1. -/
  opacity : Binary64
  /-- Offset of the watermark from the left edge in pixels, negative to the left of it. -/
  x : Int64
  /-- Offset of the watermark from the upper edge in pixels, negative above it. -/
  y : Int64
  /-- Size of the watermark relative to the image. -/
  scale : Binary64
  /-- Where the kept part begins, in seconds. -/
  startTime : Binary64
  /-- Where the kept part ends, in seconds; not after `startTime` means the end of the source. -/
  endTime : Binary64
  /-- How many times faster than the source. -/
  videoSpeed : Binary64
  audio : Audio
  aspect : Aspect
  resolution : Resolution
  /-- A script for a whole folder and not one command. -/
  batch : Bool
  /-- The folder of the sources. -/
  inputFolder : Text
  /-- The folder for the results, relative to `inputFolder`. -/
  outputFolder : Text
  /-- The extension without its dot: which files of the folder are sources, and what the results are called. -/
  extension : Text
deriving DecidableEq

namespace Settings

def defaultInputFolder : Text := ".".toList

def defaultOutputFolder : Text := "processed".toList

def defaultExtension : Text := "mp4".toList

/-- The state of the editor's controls when it opens. -/
def initial : Settings where
  opacity := .ratio 8 10
  x := 50
  y := 50
  scale := .ratio 1 2
  startTime := .zero
  endTime := .zero
  videoSpeed := .one
  audio := .asSource
  aspect := .asSource
  resolution := .asSource
  batch := false
  inputFolder := defaultInputFolder
  outputFolder := defaultOutputFolder
  extension := defaultExtension

instance : Inhabited Settings := ⟨initial⟩

/-- Equal settings, the numbers compared as numbers: both zeros are the same, not-a-number is never. -/
def same (s t : Settings) : Bool :=
  s.opacity.same t.opacity && s.x == t.x && s.y == t.y && s.scale.same t.scale
    && s.startTime.same t.startTime && s.endTime.same t.endTime && s.videoSpeed.same t.videoSpeed
    && s.audio == t.audio && s.aspect == t.aspect && s.resolution == t.resolution && s.batch == t.batch
    && s.inputFolder == t.inputFolder && s.outputFolder == t.outputFolder && s.extension == t.extension

/-! ## Time -/

/-- The seconds from start to end, 0 where the end is not after the start. -/
def effectiveDuration (s : Settings) : Binary64 := (s.endTime.sub s.startTime).orZero

/-- The part of the source that is kept. -/
structure TrimWindow where
  /-- Seconds to skip, none where the source is kept from its beginning. -/
  seek : Option Binary64
  /-- Seconds to keep, none where the source is kept to its end. -/
  length : Option Binary64
deriving DecidableEq

def trimWindow (s : Settings) : TrimWindow where
  seek := if s.startTime.isPositive then some s.startTime else none
  length := if s.effectiveDuration.isPositive then some s.effectiveDuration else none

/-- Whether the picture plays at another speed than the source. -/
def changesSpeed (s : Settings) : Bool := !s.videoSpeed.same .one

/-! ## A new source -/

/-- Keeps everything but the part and the speed, which belong to the source that was there before. -/
def resetForNewSource (s : Settings) : Settings :=
  { s with startTime := .zero, endTime := .zero, videoSpeed := .one }

/-- Moves the end to the length that a source reports; a length that is not a positive number is ignored. -/
def applyMediaDuration (s : Settings) (seconds : Binary64) : Settings :=
  if seconds.isFinite && seconds.isPositive then { s with endTime := seconds } else s

end Settings

end Watermark
