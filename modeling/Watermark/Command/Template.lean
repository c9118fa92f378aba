import Watermark.Text

/-!
# Command templates

A template is a command line in which the input and the output file are still open. It is a list of segments, and
what comes from the settings is marked (`Segment.value`), so that a script can escape just that. Filling in the
two slots is one pass over the segments (`Template.render`): the texts that go in are never looked at again, even
if they look like a slot.
-/

namespace Watermark

/-- A piece of a command line. -/
inductive Segment where
  /-- Fixed words, blanks and quotes of the command. -/
  | fixed (text : Text)
  /-- Text that comes from the settings. -/
  | value (text : Text)
  /-- The slot of the input file. -/
  | input
  /-- The slot of the output file. -/
  | output
deriving DecidableEq

/-- The text of a segment: values escaped, slots filled with the two texts as they are. -/
def Segment.render (escape : Text → Text) (input output : Text) : Segment → Text
  | .fixed t => t
  | .value t => escape t
  | .input => input
  | .output => output

/-- A command line with open slots. -/
structure Template where
  segments : List Segment
deriving DecidableEq

namespace Template

def render (t : Template) (escape : Text → Text) (input output : Text) : Text :=
  t.segments.flatMap (Segment.render escape input output)

/-- The command for two files, with the values as they are. -/
def substitute (t : Template) (input output : Text) : Text := t.render id input output

/-- What stands for the input file where a template is shown. -/
def inputToken : Text := "%INPUT%".toList

/-- What stands for the output file where a template is shown. -/
def outputToken : Text := "%OUTPUT%".toList

/-- The template as it is shown. -/
def text (t : Template) : Text := t.substitute inputToken outputToken

/-! ## Parts of a command line -/

/-- A word after a blank. -/
def word (w : Text) : List Segment := [.fixed (' ' :: w)]

/-- A value after a blank. -/
def bare (v : Text) : List Segment := [.fixed [' '], .value v]

/-- A segment in double quotes after a blank. -/
def quoted (s : Segment) : List Segment := [.fixed [' ', '"'], s, .fixed ['"']]

end Template

end Watermark
