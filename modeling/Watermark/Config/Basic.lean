import Watermark.Json.Record
import Watermark.Json.Value

/-!
# Configuration

What does not belong to one edit: the defaults of compiling, where the assistant is reached, and logging. A
configuration is a JSON record of three sections; a section or field that is missing has its initial value.
-/

namespace Watermark

/-- Used where a command does not say otherwise. -/
structure OutputDefaults where
  /-- A word for the dialect of batch scripts. -/
  dialect : Text
  videoName : Option Text
  imageName : Option Text
deriving DecidableEq

/-- Where the assistant is reached. -/
structure AssistantConfig where
  baseUrl : Text
  model : Text
  /-- The environment variable that holds the key. -/
  apiKeyEnv : Text
  /-- Seconds after which a request is given up. -/
  timeoutSecs : UInt64
deriving DecidableEq

structure LoggingConfig where
  /-- The filter for log levels. -/
  level : Text
  json : Bool
deriving DecidableEq

structure Config where
  output : OutputDefaults
  assistant : AssistantConfig
  logging : LoggingConfig
deriving DecidableEq

namespace OutputDefaults

def initial : OutputDefaults := ⟨"windows".toList, none, none⟩

def fields : List (Json.Field OutputDefaults) :=
  [ .of "dialect" .initial Json.text fun v o => { o with dialect := v },
    .of "video_name" .initial (Json.optional Json.text) fun v o => { o with videoName := v },
    .of "watermark_name" .initial (Json.optional Json.text) fun v o => { o with imageName := v } ]

def toJson (o : OutputDefaults) : Json.Value :=
  .object
    [ ("dialect".toList, .text o.dialect),
      ("video_name".toList, .ofOption o.videoName),
      ("watermark_name".toList, .ofOption o.imageName) ]

end OutputDefaults

namespace AssistantConfig

def initial : AssistantConfig where
  baseUrl := "https://generativelanguage.googleapis.com/v1beta".toList
  model := "gemini-2.5-flash".toList
  apiKeyEnv := "GEMINI_API_KEY".toList
  timeoutSecs := 60

def fields : List (Json.Field AssistantConfig) :=
  [ .of "base_url" .initial Json.text fun v a => { a with baseUrl := v },
    .of "model" .initial Json.text fun v a => { a with model := v },
    .of "api_key_env" .initial Json.text fun v a => { a with apiKeyEnv := v },
    .of "timeout_secs" .initial Json.uint64 fun v a => { a with timeoutSecs := v } ]

def toJson (a : AssistantConfig) : Json.Value :=
  .object
    [ ("base_url".toList, .text a.baseUrl),
      ("model".toList, .text a.model),
      ("api_key_env".toList, .text a.apiKeyEnv),
      ("timeout_secs".toList, .whole a.timeoutSecs.toNat) ]

end AssistantConfig

namespace LoggingConfig

def initial : LoggingConfig := ⟨"info".toList, false⟩

def fields : List (Json.Field LoggingConfig) :=
  [ .of "level" .initial Json.text fun v l => { l with level := v },
    .of "json" .initial Json.bool fun v l => { l with json := v } ]

def toJson (l : LoggingConfig) : Json.Value :=
  .object [("level".toList, .text l.level), ("json".toList, .bool l.json)]

end LoggingConfig

namespace Config

def initial : Config := ⟨.initial, .initial, .initial⟩

def fields : List (Json.Field Config) :=
  [ .of "output" .initial (Json.record OutputDefaults.fields .initial) fun v c => { c with output := v },
    .of "assistant" .initial (Json.record AssistantConfig.fields .initial) fun v c => { c with assistant := v },
    .of "logging" .initial (Json.record LoggingConfig.fields .initial) fun v c => { c with logging := v } ]

/-- The configuration that a JSON text holds. -/
def ofJson (t : Text) : Except Json.Fault Config := Json.readAll (Json.record fields initial) t

def toJson (c : Config) : Json.Value :=
  .object
    [ ("output".toList, c.output.toJson),
      ("assistant".toList, c.assistant.toJson),
      ("logging".toList, c.logging.toJson) ]

end Config

end Watermark
