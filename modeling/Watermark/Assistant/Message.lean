import Watermark.Json.Record
import Watermark.Json.Value

/-!
# Messages of a conversation

A message can be stored as JSON. Its two marks may be missing there and are then not set; who speaks, the text and
the time may not.
-/

namespace Watermark

/-- Who says something. -/
inductive Speaker where
  | user
  | model
deriving DecidableEq

namespace Speaker

def all : List Speaker := [.user, .model]

def name : Speaker → Text
  | .user => "user".toList
  | .model => "model".toList

def read : Json.Reader Speaker := Json.variant name all

end Speaker

/-- Something said in a conversation. -/
structure Message where
  speaker : Speaker
  text : Text
  /-- When it was said, as an RFC 3339 time. -/
  sentAt : Text
  /-- The answer is about settings that have changed since. -/
  stale : Bool
  /-- The text tells of a failure and is no answer. -/
  isError : Bool
deriving DecidableEq

namespace Message

/-- Nothing said by anyone: where reading starts. -/
def blank : Message := ⟨.user, [], [], false, false⟩

/-- The fields in the order of the record. -/
def fields : List (Json.Field Message) :=
  [ .of "role" .refused Speaker.read fun v m => { m with speaker := v },
    .of "text" .refused Json.text fun v m => { m with text := v },
    .of "sent_at" .refused Json.text fun v m => { m with sentAt := v },
    .of "stale_context" .initial Json.bool fun v m => { m with stale := v },
    .of "is_error" .initial Json.bool fun v m => { m with isError := v } ]

/-- The message that a JSON text holds. -/
def ofJson (t : Text) : Except Json.Fault Message := Json.readAll (Json.record fields blank) t

def toJson (m : Message) : Json.Value :=
  .object
    [ ("role".toList, .text m.speaker.name),
      ("text".toList, .text m.text),
      ("sent_at".toList, .text m.sentAt),
      ("stale_context".toList, .bool m.stale),
      ("is_error".toList, .bool m.isError) ]

end Message

end Watermark
