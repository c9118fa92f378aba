import Watermark.Settings.Sanitize
import Watermark.Number.Notation

/-!
# What is wrong with settings

`Settings.issues` lists what a person should know before the settings are compiled: values that sanitizing will
replace, and values that compile but are unlikely to be meant. An `Issue` is the cause together with the value;
`Issue.message` is its text.
-/

namespace Watermark

/-- A control of the editor that has a range of its own. -/
inductive Control where
  | scale
  | videoSpeed
deriving DecidableEq

namespace Control

def name : Control → Text
  | .scale => "scale".toList
  | .videoSpeed => "videoSpeed".toList

/-- The least value that the control offers. -/
def least : Control → Binary64
  | .scale => .ratio 1 10
  | .videoSpeed => .ratio 1 4

/-- The greatest value that the control offers. -/
def greatest : Control → Binary64
  | .scale => .ratio 2 1
  | .videoSpeed => .ratio 4 1

end Control

/-- One of the two times of the kept part. -/
inductive Moment where
  | startTime
  | endTime
deriving DecidableEq

def Moment.name : Moment → Text
  | .startTime => "startTime".toList
  | .endTime => "endTime".toList

/-- One of the two folders. -/
inductive Folder where
  | input
  | output
deriving DecidableEq

def Folder.name : Folder → Text
  | .input => "inputPath".toList
  | .output => "outputPath".toList

/-- Something in the settings that a person should know about. -/
inductive Issue where
  | opacityOutside (value : Binary64)
  | notPositive (control : Control) (value : Binary64)
  | outsideEditorRange (control : Control) (value : Binary64)
  | negativeTime (moment : Moment) (value : Binary64)
  | endNotAfterStart (endTime startTime : Binary64)
  | extensionEmpty
  | extensionLeadingDot (extension : Text)
  | extensionCharacters (extension : Text)
  | folderEmpty (folder : Folder)
deriving DecidableEq

namespace Issue

def message : Issue → Text
  | opacityOutside v => "opacity ".toList ++ v.plain ++ " is outside [0, 1]".toList
  | notPositive c v => c.name ++ " must be positive (got ".toList ++ v.plain ++ ")".toList
  | outsideEditorRange c v =>
    c.name ++ " ".toList ++ v.plain ++ " is outside the editor range ".toList ++ c.least.plain ++ "-".toList
      ++ c.greatest.plain
  | negativeTime m v => m.name ++ " ".toList ++ v.plain ++ " is negative".toList
  | endNotAfterStart e s =>
    "endTime ".toList ++ e.plain ++ " is not after startTime ".toList ++ s.plain
      ++ "; the source will be read to its end".toList
  | extensionEmpty => "fileExtension is empty".toList
  | extensionLeadingDot e =>
    "fileExtension '".toList ++ e ++ "' should not include the leading dot".toList
  | extensionCharacters e =>
    "fileExtension '".toList ++ e
      ++ "' contains characters other than letters, digits, '.', '_' and '-'".toList
  | folderEmpty f => f.name ++ " is empty".toList

/-- The issue where the condition holds. -/
def when (condition : Bool) (issue : Issue) : List Issue := if condition then [issue] else []

def ofOpacity (v : Binary64) : List Issue :=
  when (!(v.isFinite && Binary64.zero.le v && v.le .one)) (opacityOutside v)

def ofControl (c : Control) (v : Binary64) : List Issue :=
  if !(v.isFinite && v.isPositive) then [notPositive c v]
  else when (!(c.least.le v && v.le c.greatest)) (outsideEditorRange c v)

def ofTime (m : Moment) (v : Binary64) : List Issue :=
  when (!(v.isFinite && Binary64.zero.le v)) (negativeTime m v)

def ofWindow (endTime startTime : Binary64) : List Issue :=
  when (endTime.isPositive && endTime.le startTime) (endNotAfterStart endTime startTime)

/-- Blanks around an extension are not part of it, but a message shows it as it was given. -/
def ofExtension (extension : Text) : List Issue :=
  let e := extension.trim
  let first := match e with
    | [] => [extensionEmpty]
    | c :: _ => when (c == '.') (extensionLeadingDot extension)
  first ++ when (e.any fun c => !Extension.allowed c) (extensionCharacters extension)

def ofFolder (f : Folder) (t : Text) : List Issue := when t.allBlank (folderEmpty f)

end Issue

/-- The issues in the order of the fields; folders matter only for a batch. -/
def Settings.issues (s : Settings) : List Issue :=
  Issue.ofOpacity s.opacity
    ++ Issue.ofControl .scale s.scale
    ++ Issue.ofControl .videoSpeed s.videoSpeed
    ++ Issue.ofTime .startTime s.startTime
    ++ Issue.ofTime .endTime s.endTime
    ++ Issue.ofWindow s.endTime s.startTime
    ++ Issue.ofExtension s.extension
    ++ if s.batch then Issue.ofFolder .input s.inputFolder ++ Issue.ofFolder .output s.outputFolder else []

end Watermark
