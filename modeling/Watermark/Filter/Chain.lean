import Watermark.Filter.Stage
import Watermark.Settings.Basic

/-!
# The chain of stages

The image is prepared and laid on the video, and the result runs through up to three more stages. A `Chain` knows
which stream is active, that is, leaves its last stage; every further stage takes just that stream
(`Chain.feed`), so a stage that is left out is never referred to.
-/

namespace Watermark

/-- Stages in order, and the stream that leaves the last one. -/
structure Chain where
  stages : List Stage
  active : Stream
deriving DecidableEq

namespace Chain

/-- No stage yet: the stream itself is active. -/
def startingAt (s : Stream) : Chain := ⟨[], s⟩

/-- A further stage that takes the streams given; its output becomes active. -/
def append (c : Chain) (inputs : List Stream) (f : Filter) : Chain := ⟨c.stages ++ [⟨inputs, f⟩], f.output⟩

/-- A further stage that takes the active stream. -/
def feed (c : Chain) (f : Filter) : Chain := c.append [c.active] f

/-- A further stage that takes the active stream, if there is one to add. -/
def feed? (c : Chain) : Option Filter → Chain
  | some f => c.feed f
  | none => c

def contains (c : Chain) (r : Role) : Bool := c.stages.any fun s => s.role == r

/-- The roles that occur, in the order of all roles. -/
def roles (c : Chain) : List Role := Role.all.filter c.contains

/-- The stages with a semicolon between each two. -/
def pipeline (c : Chain) : Text := List.intercalate [';'] (c.stages.map Stage.text)

end Chain

namespace Settings

def retiming? (s : Settings) : Option Filter := if s.changesSpeed then some (.retime s.videoSpeed) else none

/-- The chain that makes the picture of an edit. -/
def chain (s : Settings) : Chain :=
  Chain.startingAt .image
    |>.feed (.prepare s.opacity s.scale)
    |>.append [.source, .watermark] (.overlay s.x s.y)
    |>.feed? s.retiming?
    |>.feed? (s.aspect.ratio?.map .crop)
    |>.feed? (s.resolution.height?.map .resize)

end Settings

end Watermark
