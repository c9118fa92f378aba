import Watermark.Assistant.Conversation
import Watermark.Assistant.Reply
import Watermark.Assistant.Request
import Watermark.Config.File

/-!
# The client of the provider

A `Client` is an assistant that asks the provider over HTTP. It needs a key, which comes from the environment, and
somebody who carries requests (`Peer`).
-/

namespace Watermark

/-- Carries a request to the provider and brings its reply. -/
abbrev Peer (m : Type → Type) := Request → m (Except TransportFault Reply)

/-- What it takes to ask the provider. -/
structure Client where
  key : Text
  /-- The address without slashes at its end. -/
  baseUrl : Text
  model : Text
deriving DecidableEq

namespace Client

/-- A client with a key, which must not be blank. -/
def ofKey (c : AssistantConfig) (key : Text) : Except Failure Client :=
  if key.allBlank then .error (.missingApiKey c.apiKeyEnv)
  else .ok ⟨key, c.baseUrl.dropTrailing (· == '/'), c.model⟩

/-- A client with the key that the environment holds. -/
def ofEnvironment (c : AssistantConfig) (env : Environment) : Except Failure Client :=
  match env c.apiKeyEnv with
  | some key => ofKey c key
  | none => .error (.missingApiKey c.apiKeyEnv)

def endpoint (c : Client) : Text :=
  c.baseUrl ++ "/models/".toList ++ c.model ++ ":generateContent".toList

def request (c : Client) (context question : Text) : Request :=
  ⟨c.endpoint, c.key, Request.bodyOf context question⟩

/-- Whether a header can carry the character: a tab, or no control character. -/
def isSendable (ch : Char) : Bool := ch == '\t' || (0x20 ≤ ch.toNat && ch.toNat != 0x7F)

variable {m : Type → Type} [Monad m]

/-- The assistant that asks the provider through a peer. A key that no header can carry is never sent. -/
def ask (w : Wording) (peer : Peer m) (c : Client) : Assistant m := fun context question => do
  if c.key.all isSendable then
    match ← peer (c.request context question) with
    | .error f => return .error (.request (w.transport f))
    | .ok reply => return reply.answer w
  else return .error (.request (w.transport .unsendableKey))

end Client

end Watermark
