import Watermark.Command.Template
import Watermark.Filter.Chain

/-!
# The command of an edit

The arguments stand in a fixed order: the part of the source, the two inputs, the chain of filters, the stream to
keep, the audio and the output.
-/

namespace Watermark

/-- How the audio of the source comes into the output. -/
inductive Soundtrack where
  /-- Mapped and copied. At another speed it keeps its own pace and drifts from the picture. -/
  | copied
  /-- Retimed by the factor; the filter takes the audio by itself, so nothing is mapped. -/
  | tempo (factor : Binary64)
deriving DecidableEq

/-- Audio is retimed only where the picture is, and only if that is wanted. -/
def Settings.soundtrack (s : Settings) : Soundtrack :=
  if s.changesSpeed && s.audio == .sync then .tempo s.videoSpeed else .copied

namespace Template

/-- A flag with a number, where there is one. -/
def timed (flag : Text) : Option Binary64 → List Segment
  | some t => word flag ++ bare t.numeral
  | none => []

def soundtrack : Soundtrack → List Segment
  | .copied => word "-map".toList ++ word "0:a".toList ++ word "-c:a".toList ++ word "copy".toList
  | .tempo factor => word "-filter:a".toList ++ quoted (.value ("atempo=".toList ++ factor.numeral))

/-- The command of the edit around a chain of filters and a watermark image. -/
def assemble (s : Settings) (c : Chain) (image : Text) : Template where
  segments :=
    .fixed "ffmpeg".toList
      :: timed "-ss".toList s.trimWindow.seek
      ++ timed "-t".toList s.trimWindow.length
      ++ word "-i".toList ++ quoted .input
      ++ word "-i".toList ++ quoted (.value image)
      ++ word "-filter_complex".toList ++ quoted (.value c.pipeline)
      ++ word "-map".toList ++ quoted (.value c.active.label)
      ++ soundtrack s.soundtrack
      ++ quoted .output

end Template

/-- The template of the edit with its own chain. -/
def Settings.template (s : Settings) (image : Text) : Template := .assemble s s.chain image

end Watermark
