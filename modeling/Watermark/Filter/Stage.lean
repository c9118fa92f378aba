import Watermark.Settings.Choice
import Watermark.Number.Notation

/-!
# The stages of the picture

A stage is one filter with the streams that it takes. What a filter does is data (`Filter`): its text
(`Filter.expression`), the stream that leaves it (`Filter.output`) and its role in the chain (`Filter.role`) are
functions of it, so that two stages of one role always write the same stream.
-/

namespace Watermark

/-- A stream of pictures: one of the two input files, or what leaves a stage. -/
inductive Stream where
  /-- The source video, the first input file. -/
  | source
  /-- The watermark image, the second input file. -/
  | image
  | watermark
  | composite
  | retimed
  | cropped
  | resized
deriving DecidableEq

def Stream.name : Stream → Text
  | .source => "0".toList
  | .image => "1".toList
  | .watermark => "wm".toList
  | .composite => "base".toList
  | .retimed => "speeded".toList
  | .cropped => "cropped".toList
  | .resized => "finalv".toList

/-- The name in brackets, as a reference to the stream. -/
def Stream.label (s : Stream) : Text := '[' :: s.name ++ [']']

/-- The place of a stage in the chain. -/
inductive Role where
  | watermarkPrep
  | overlay
  | speed
  | crop
  | outputScale
deriving DecidableEq

namespace Role

/-- All roles in the order of the chain. -/
def all : List Role := [.watermarkPrep, .overlay, .speed, .crop, .outputScale]

theorem mem_all (r : Role) : r ∈ all := by
  cases r <;> decide

def name : Role → Text
  | .watermarkPrep => "WatermarkPrep".toList
  | .overlay => "Overlay".toList
  | .speed => "Speed".toList
  | .crop => "Crop".toList
  | .outputScale => "OutputScale".toList

/-- The position in the order of the chain. -/
def rank : Role → Nat
  | .watermarkPrep => 0
  | .overlay => 1
  | .speed => 2
  | .crop => 3
  | .outputScale => 4

end Role

/-- What a stage does to its streams. -/
inductive Filter where
  /-- Gives the image its opacity and size. -/
  | prepare (opacity scale : Binary64)
  /-- Lays the image on the video at an offset from the upper left corner. -/
  | overlay (x y : Int64)
  /-- Plays the video so many times faster. -/
  | retime (speed : Binary64)
  /-- Cuts out the largest centered window of the shape. -/
  | crop (shape : Ratio)
  /-- Scales to a height in pixels and keeps the shape. -/
  | resize (height : Nat)
deriving DecidableEq

namespace Filter

def role : Filter → Role
  | prepare .. => .watermarkPrep
  | overlay .. => .overlay
  | retime _ => .speed
  | crop _ => .crop
  | resize _ => .outputScale

def output : Filter → Stream
  | prepare .. => .watermark
  | overlay .. => .composite
  | retime _ => .retimed
  | crop _ => .cropped
  | resize _ => .resized

/-- A shape as a factor or divisor. Division goes from left to right, so a quotient stands in parentheses. -/
def factor (shape : Ratio) : Text :=
  if shape.height = 1 then shape.expression else '(' :: shape.expression ++ [')']

/-- Width, height and the two margins of the window, each in quotes. -/
def cropExpression (shape : Ratio) : Text :=
  "crop='min(iw,ih*".toList ++ factor shape ++ ")':'min(ih,iw/".toList ++ factor shape
    ++ ")':'(iw-ow)/2':'(ih-oh)/2'".toList

def expression : Filter → Text
  | prepare opacity scale =>
    "format=rgba,colorchannelmixer=aa=".toList ++ opacity.numeral
      ++ if scale.same .one then [] else ",scale=iw*".toList ++ scale.numeral ++ ":-1".toList
  | overlay x y => "overlay=".toList ++ Text.ofInt x.toInt ++ ':' :: Text.ofInt y.toInt
  | retime speed => "setpts=PTS/".toList ++ speed.numeral
  | crop shape => cropExpression shape
  | resize height => "scale=-1:".toList ++ Text.ofNat height

end Filter

/-- A filter with the streams that it takes. -/
structure Stage where
  inputs : List Stream
  filter : Filter
deriving DecidableEq

namespace Stage

def role (s : Stage) : Role := s.filter.role

def output (s : Stage) : Stream := s.filter.output

/-- The streams taken, the expression and the stream that leaves. -/
def text (s : Stage) : Text := s.inputs.flatMap Stream.label ++ s.filter.expression ++ s.output.label

end Stage

end Watermark
