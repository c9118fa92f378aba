import Watermark.Settings.Basic
import Watermark.Json.Record
import Watermark.Json.Value

/-!
# Settings as JSON

A settings file holds one record. A field that is missing keeps its initial value, so a file may name only what
it changes. Options are read leniently: an unknown word means the source as it is.
-/

namespace Watermark.Settings

/-- A field that may be missing. -/
def field {α : Type} (key : String) (r : Json.Reader α) (store : α → Settings → Settings) : Json.Field Settings :=
  .of key .initial r store

/-- An option by its word. -/
def choice (α : Type) [Choice α] : Json.Reader α := Choice.ofWord <$> Json.text

/-- The fields in the order of the file. -/
def fields : List (Json.Field Settings) :=
  [ field "opacity" Json.float fun v s => { s with opacity := v },
    field "x" Json.int64 fun v s => { s with x := v },
    field "y" Json.int64 fun v s => { s with y := v },
    field "scale" Json.float fun v s => { s with scale := v },
    field "startTime" Json.float fun v s => { s with startTime := v },
    field "endTime" Json.float fun v s => { s with endTime := v },
    field "videoSpeed" Json.float fun v s => { s with videoSpeed := v },
    field "audioMode" (choice Audio) fun v s => { s with audio := v },
    field "aspectRatio" (choice Aspect) fun v s => { s with aspect := v },
    field "outputResolution" (choice Resolution) fun v s => { s with resolution := v },
    field "isBatchMode" Json.bool fun v s => { s with batch := v },
    field "inputPath" Json.text fun v s => { s with inputFolder := v },
    field "outputPath" Json.text fun v s => { s with outputFolder := v },
    field "fileExtension" Json.text fun v s => { s with extension := v } ]

/-- The settings that a JSON text holds. -/
def ofJson (t : Text) : Except Json.Fault Settings := Json.readAll (Json.record fields initial) t

/-- The settings as a JSON value, the members in the order of the fields. -/
def toJson (s : Settings) : Json.Value :=
  .object
    [ ("opacity".toList, .float s.opacity),
      ("x".toList, .whole s.x.toInt),
      ("y".toList, .whole s.y.toInt),
      ("scale".toList, .float s.scale),
      ("startTime".toList, .float s.startTime),
      ("endTime".toList, .float s.endTime),
      ("videoSpeed".toList, .float s.videoSpeed),
      ("audioMode".toList, .text (Choice.word s.audio)),
      ("aspectRatio".toList, .text (Choice.word s.aspect)),
      ("outputResolution".toList, .text (Choice.word s.resolution)),
      ("isBatchMode".toList, .bool s.batch),
      ("inputPath".toList, .text s.inputFolder),
      ("outputPath".toList, .text s.outputFolder),
      ("fileExtension".toList, .text s.extension) ]

end Watermark.Settings
