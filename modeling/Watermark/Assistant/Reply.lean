import Watermark.Assistant.Failure
import Watermark.Json.Record
import Watermark.Wording

/-!
# Replies of the provider

A reply is a status and a body. Outside of 200 to 299 the provider refused, and the body may say why. Otherwise
the body tells that the answer was blocked, or it holds candidates for the answer, whose texts are put together
without anything between them.
-/

namespace Watermark

/-- What the provider sends back. -/
structure Reply where
  status : Nat
  body : Text
deriving DecidableEq

namespace Reply

/-! ## What a body holds -/

/-- A piece of a candidate. -/
structure Part where
  text : Text
deriving DecidableEq

structure Body where
  /-- The parts of every candidate; none for one without content. -/
  candidates : List (Option (List Part))
  /-- Why the answer was blocked, if it was. -/
  blockReason : Option Text
deriving DecidableEq

namespace Body

def partFields : List (Json.Field Part) :=
  [ .of "text" .initial Json.text fun v p => { p with text := v } ]

/-- The content of a candidate: who speaks, which nobody needs, and the parts. -/
def contentFields : List (Json.Field (List Part)) :=
  [ .of "role" .initial (Json.optional Json.text) fun _ ps => ps,
    .of "parts" .initial (Json.list (Json.record partFields ⟨[]⟩)) fun v _ => v ]

def candidateFields : List (Json.Field (Option (List Part))) :=
  [ .of "content" .initialInObject (Json.optional (Json.record contentFields [])) fun v _ => v ]

def feedbackFields : List (Json.Field (Option Text)) :=
  [ .of "blockReason" .initialInObject (Json.optional Json.text) fun v _ => v ]

def fields : List (Json.Field Body) :=
  [ .of "candidates" .initial (Json.list (Json.record candidateFields none)) fun v b =>
      { b with candidates := v },
    .of "promptFeedback" .initial (Json.optional (Json.record feedbackFields none)) fun v b =>
      { b with blockReason := v.join } ]

def ofJson (t : Text) : Except Json.Fault Body := Json.readAll (Json.record fields ⟨[], none⟩) t

/-- The texts of all parts of all candidates in order. -/
def text (b : Body) : Text := (b.candidates.filterMap id).flatten.flatMap Part.text

end Body

/-! ## Refusals -/

def detailFields : List (Json.Field Text) :=
  [ .of "message" .refused Json.text fun v _ => v ]

def refusalFields : List (Json.Field Text) :=
  [ .of "error" .refused (Json.record detailFields []) fun v _ => v ]

/-- The explanation in the body of a refusal, or else the whole body. -/
def refusalText (body : Text) : Text :=
  match Json.readAll (Json.record refusalFields []) body with
  | .ok t => t
  | .error _ => body

/-! ## The answer -/

/-- The answer in a body. -/
def answerOf (w : Wording) (body : Text) : Except Failure Text :=
  match Body.ofJson body with
  | .error f => .error (.malformed (w.json f))
  | .ok b =>
    match b.blockReason with
    | some reason => .error (.blocked reason)
    | none => if b.text.allBlank then .error .emptyAnswer else .ok b.text

/-- The answer in a reply. -/
def answer (w : Wording) (r : Reply) : Except Failure Text :=
  if 200 ≤ r.status ∧ r.status ≤ 299 then answerOf w r.body
  else .error (.api r.status (refusalText r.body))

end Reply

end Watermark
