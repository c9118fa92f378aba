import Watermark.Json.Reader
import Watermark.Storage.Basic

/-!
# Wording

Some messages quote what went wrong outside of the library: in the text of a file, in storage, or on the way to
the provider. A `Wording` puts these faults into words.
-/

namespace Watermark

def Json.Fault.message : Json.Fault → Text
  | .malformed => "the text is not JSON".toList
  | .truncated => "the text ends too early".toList
  | .mismatch => "the value is not of the expected kind".toList

/-- Why a request had no reply. -/
inductive TransportFault where
  /-- The key holds a character that a header cannot carry. -/
  | unsendableKey
  /-- Nobody could be reached. -/
  | unreachable
deriving DecidableEq

def TransportFault.message : TransportFault → Text
  | unsendableKey => "the key cannot be sent".toList
  | unreachable => "the provider cannot be reached".toList

/-- Texts for the faults of the outside. -/
structure Wording where
  json : Json.Fault → Text
  storage : StorageFault → Text
  transport : TransportFault → Text

/-- The library's own texts. -/
def Wording.standard : Wording := ⟨Json.Fault.message, StorageFault.message, TransportFault.message⟩

end Watermark
