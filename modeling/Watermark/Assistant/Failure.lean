import Watermark.Text

/-!
# Why there is no answer

An exchange with the assistant can fail in seven ways. None of them is fatal: the conversation shows the text of
the failure where the answer would stand.
-/

namespace Watermark

/-- Why an exchange gave no answer. -/
inductive Failure where
  | emptyQuestion
  /-- The environment variable that should hold the key does not. -/
  | missingApiKey (variableName : Text)
  /-- The request was not answered. -/
  | request (detail : Text)
  /-- The provider refused the request. -/
  | api (status : Nat) (text : Text)
  /-- The provider refused to answer. -/
  | blocked (reason : Text)
  | emptyAnswer
  /-- The answer of the provider could not be read. -/
  | malformed (detail : Text)
deriving DecidableEq

def Failure.message : Failure → Text
  | emptyQuestion => "question is empty".toList
  | missingApiKey name => "API key not set (expected in $".toList ++ name ++ ")".toList
  | request detail => "request failed: ".toList ++ detail
  | api status text => "API error (".toList ++ Text.ofNat status ++ "): ".toList ++ text
  | blocked reason => "response blocked: ".toList ++ reason
  | emptyAnswer => "no answer in response".toList
  | malformed detail => "malformed response: ".toList ++ detail

end Watermark
