import Watermark.Assistant.Failure
import Watermark.Assistant.Message
import Watermark.Assistant.Summary

/-!
# The conversation with the assistant

An exchange has three steps. `Conversation.begin` records the question and takes a picture of the settings,
`Exchange.run` asks the assistant, and `Conversation.finish` records the answer or the failure. Between the steps
the settings may change and other exchanges may begin and finish. No answer is lost: one that comes after the
settings have changed is marked as stale.

An exchange remembers how often the settings had changed at its beginning, its generation.
-/

namespace Watermark

/-! ## Exchanges -/

/-- A question that is recorded and not yet answered. -/
structure Exchange where
  question : Text
  /-- The settings in one line, as they were when the question was asked. -/
  context : Text
  generation : UInt64
deriving DecidableEq

/-- How an exchange came out. -/
structure Outcome where
  generation : UInt64
  result : Except Failure Text

/-- Somebody who answers a question, given a line of context, with the effects of `m`. -/
abbrev Assistant (m : Type → Type) := (context question : Text) → m (Except Failure Text)

/-- Asks the assistant. -/
def Exchange.run {m : Type → Type} [Monad m] (e : Exchange) (a : Assistant m) : m Outcome := do
  return ⟨e.generation, ← a e.context e.question⟩

/-! ## The record -/

/-- Everything said so far, and how many questions wait for their answer. -/
structure Conversation where
  messages : List Message
  inFlight : Nat
deriving DecidableEq

namespace Conversation

def greeting : Text :=
  ("Hi! I can help you customize your FFmpeg command. Ask me anything like \"How do I make the watermark " ++
    "rotate?\" or \"How to crop the video?\".").toList

/-- What stands before the text of a failure. -/
def apology : Text := "Sorry, I couldn't get an answer: ".toList

/-- A new conversation holds the greeting. -/
def start (now : Text) : Conversation := ⟨[⟨.model, greeting, now, false, false⟩], 0⟩

def isWaiting (c : Conversation) : Bool := c.inFlight > 0

/-- Records a question without the blanks around it. A blank question is refused and changes nothing. -/
def begin (c : Conversation) (question : Text) (s : Settings) (generation : UInt64) (now : Text) :
    Except Failure (Exchange × Conversation) :=
  let q := question.trim
  if q.isEmpty then .error .emptyQuestion
  else .ok (⟨q, s.summary, generation⟩, ⟨c.messages ++ [⟨.user, q, now, false, false⟩], c.inFlight + 1⟩)

/-- What is recorded for an outcome: the answer or the text of the failure, marked as stale unless the settings
are those of the question. -/
def reply (o : Outcome) (current : UInt64) (now : Text) : Message :=
  let stale := o.generation != current
  match o.result with
  | .ok answer => ⟨.model, answer, now, stale, false⟩
  | .error f => ⟨.model, apology ++ f.message, now, stale, true⟩

/-- Records an outcome. -/
def finish (c : Conversation) (o : Outcome) (current : UInt64) (now : Text) : Message × Conversation :=
  let m := reply o current now
  (m, ⟨c.messages ++ [m], c.inFlight - 1⟩)

end Conversation

end Watermark
