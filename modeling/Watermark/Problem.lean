import Watermark.Assistant.Failure

/-!
# Problems

What the commands report when something around compiling goes wrong. Compiling itself never fails.
-/

namespace Watermark

/-- Why a command could not do its work. -/
inductive Problem where
  | settings (text : Text)
  | assistant (text : Text)
  | config (text : Text)
  | fileNotFound (path : Text)
  /-- A fault of storage in its own words. -/
  | storage (detail : Text)
deriving DecidableEq

def Problem.message : Problem → Text
  | settings text => "Settings error: ".toList ++ text
  | assistant text => "Assistant error: ".toList ++ text
  | config text => "Configuration error: ".toList ++ text
  | fileNotFound path => "File not found: ".toList ++ path
  | storage detail => detail

def Problem.ofFailure (f : Failure) : Problem := .assistant f.message

end Watermark
