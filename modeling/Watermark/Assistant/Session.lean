import Watermark.Settings.Sanitize
import Watermark.Assistant.Counter
import Watermark.Assistant.Conversation

/-!
# A session of the editor

A `Session` is all that the editor remembers while it is open: the settings, the handles of the counter of their
changes, the conversation, and the exchanges and outcomes on their way. A `Session.Action` is one thing that happens to
it, and `Session.step` is what it does; actions come in any order, and several exchanges may be open at once. Handles,
exchanges and outcomes are referred to by the order in which they arose and are never used up. A session begins with one
handle, and the others are cloned from those that are there.

Settings change by an `Edit`. That an edit is counted is an action of its own, since an edit and its count take
effect one after the other.
-/

namespace Watermark

/-- A change of the settings. -/
inductive Edit where
  | replace (settings : Settings)
  /-- Another source was chosen. -/
  | newSource
  /-- The source reported its length. -/
  | duration (seconds : Binary64)
  | sanitize
deriving DecidableEq

def Edit.apply : Edit → Settings → Settings
  | replace t, _ => t
  | newSource, s => s.resetForNewSource
  | duration d, s => s.applyMediaDuration d
  | sanitize, s => s.sanitized

/-- The state of the editor. -/
structure Session where
  settings : Settings
  counters : Counters
  conversation : Conversation
  /-- Every exchange that began, the oldest first. -/
  exchanges : List Exchange
  /-- Every outcome so far, the oldest first. -/
  outcomes : List Outcome

namespace Session

/-- A session that has just begun, with the greeting said at `now`. -/
def start (s : Settings) (now : Text) : Session := ⟨s, .start, .start now, [], []⟩

/-- How often the settings have changed, as the first handle shows it. -/
def generation (s : Session) : Generation := s.counters.generation

/-- Something that happens in a session. -/
inductive Action where
  | edit (e : Edit)
  /-- A handle is cloned. -/
  | clone (h : Handle)
  /-- A change is counted through a handle. -/
  | bump (h : Handle)
  /-- A question is asked, about the settings of the generation given or of the current one. -/
  | begin (question : Text) (generation : Option UInt64)
  /-- An exchange is run against an assistant. -/
  | run (index : Nat) (assistant : Assistant Id)
  /-- An outcome is recorded, while the generation given or the current one is valid. -/
  | finish (index : Nat) (generation : Option UInt64)

/-- What an action gives back to whoever took it. -/
inductive Result where
  | settings (s : Settings)
  | handle (h : Handle)
  | generation (g : UInt64)
  | exchange (e : Exchange)
  | outcome (o : Outcome)
  | message (m : Message)
  | failure (f : Failure)
  /-- There is no handle, exchange or outcome of that number. -/
  | unknownIndex

/-- One action at the time `now`: the result and the session after it. -/
def step (s : Session) (now : Text) : Action → Result × Session
  | .edit e =>
    let t := e.apply s.settings
    (.settings t, { s with settings := t })
  | .clone h =>
    match s.counters.reached? h with
    | some i => (.handle s.counters.nextHandle, { s with counters := s.counters.clone i })
    | none => (.unknownIndex, s)
  | .bump h =>
    match s.counters.reached? h with
    | some i => (.generation (s.counters.count i).bump.current, { s with counters := s.counters.bump i })
    | none => (.unknownIndex, s)
  | .begin question generation =>
    match s.conversation.begin question s.settings (generation.getD s.generation.current) now with
    | .ok (e, c) => (.exchange e, { s with conversation := c, exchanges := s.exchanges ++ [e] })
    | .error f => (.failure f, s)
  | .run index assistant =>
    match s.exchanges[index]? with
    | some e =>
      let o := Id.run (e.run assistant)
      (.outcome o, { s with outcomes := s.outcomes ++ [o] })
    | none => (.unknownIndex, s)
  | .finish index generation =>
    match s.outcomes[index]? with
    | some o =>
      let (m, c) := s.conversation.finish o (generation.getD s.generation.current) now
      (.message m, { s with conversation := c })
    | none => (.unknownIndex, s)

end Session

end Watermark
