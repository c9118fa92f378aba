import Watermark.Json.Value

/-!
# Requests to the provider

A request carries one text, made of the context and the question, and the instruction that makes the model an
assistant for this program. The question stands last, so nothing that it holds can be taken for the context.
-/

namespace Watermark

/-- What is sent to the provider with the method `POST`. -/
structure Request where
  url : Text
  /-- The key, sent in a header and so never part of the address. -/
  key : Text
  body : Json.Value

namespace Request

/-- What the model is told about its task. -/
def instruction : Text :=
  ("You are an FFmpeg expert helping a user build a command that overlays a watermark on videos, optionally " ++
    "trimming, retiming, cropping and rescaling them, either for one file or as a batch script. Answer concisely " ++
    "and show command-line snippets where useful.").toList

/-- The text that the model reads. -/
def prompt (context question : Text) : Text :=
  "Context: ".toList ++ context ++ "\n\nQuestion: ".toList ++ question

/-- A list of parts with one text. -/
def parts (t : Text) : Text × Json.Value :=
  ("parts".toList, .array [.object [("text".toList, .text t)]])

/-- The body of the request for a question. -/
def bodyOf (context question : Text) : Json.Value :=
  .object
    [ ("contents".toList,
        .array [.object [("role".toList, .text "user".toList), parts (prompt context question)]]),
      ("systemInstruction".toList, .object [parts instruction]) ]

end Request

end Watermark
