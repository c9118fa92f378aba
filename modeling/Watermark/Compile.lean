import Watermark.Command.Assemble
import Watermark.Script.Batch

/-!
# From settings to text

Compiling never fails. One file makes one command line; a batch makes a script in the dialect asked for, which
matters for nothing else.
-/

namespace Watermark

/-- The names of the picked files, where they are known. An empty name counts as none. -/
structure Media where
  /-- The source video, used for a single file only. -/
  video : Option Text
  /-- The watermark image. -/
  image : Option Text
deriving DecidableEq

namespace Media

def defaultVideo : Text := "input.mp4".toList

def defaultImage : Text := "watermark.png".toList

/-- The output of a single file. -/
def outputName : Text := "output.mp4".toList

/-- The name, or `fallback` where it is missing or empty. -/
def nameOr (fallback : Text) : Option Text → Text
  | none | some [] => fallback
  | some name => name

def imageName (m : Media) : Text := nameOr defaultImage m.image

def videoName (m : Media) : Text := nameOr defaultVideo m.video

end Media

/-- What the compiled text is. -/
inductive Target where
  | singleCommand
  | batchScript (dialect : Dialect)
deriving DecidableEq

namespace Target

def ofSettings (s : Settings) (d : Dialect) : Target := if s.batch then .batchScript d else .singleCommand

/-- The name under which the text is saved. -/
def fileName : Target → Text
  | .singleCommand => "ffmpeg_command.txt".toList
  | .batchScript .windows => "process_videos.bat".toList
  | .batchScript .posix => "process_videos.sh".toList

/-- Whether the saved file has to be executable. -/
def isExecutable : Target → Bool
  | .batchScript .posix => true
  | _ => false

end Target

namespace Settings

def target (s : Settings) (d : Dialect) : Target := .ofSettings s d

/-- The text that the edit compiles to. -/
def compile (s : Settings) (m : Media) (d : Dialect) : Text :=
  let t := s.template m.imageName
  match s.target d with
  | .singleCommand => t.substitute m.videoName Media.outputName
  | .batchScript d => d.script t s

end Settings

end Watermark
