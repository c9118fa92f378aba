import Watermark.Assistant.Client
import Watermark.Assistant.Counter
import Watermark.CommandLine.Arguments
import Watermark.Compile
import Watermark.Settings.File
import Watermark.Settings.Issue

/-!
# The commands

Each command gives a `Report`: what it prints, and why it failed if it did. Effects are those of the storage and,
for a question, of the peer that carries it. Only `init` and `compile` with a folder to save to write files, one file
each, and a command that fails before it writes has made folders at most. Nothing comes after the write of `init`.
`compile` still has to make a script executable that it has written. In a disk in memory this always succeeds
(`Disk.Puts.allowExecution`); where the storage can refuse it, the command fails and the script stays as written.
-/

namespace Watermark.CommandLine

/-- Why a command failed. -/
inductive CommandFailure where
  | problem (p : Problem)
  /-- There is something at the path of new settings. -/
  | occupied (path : Text)
  /-- The question was not answered; the answer printed says why. -/
  | unanswered
deriving DecidableEq

namespace CommandFailure

def message : CommandFailure → Text
  | problem p => p.message
  | occupied path => path ++ " already exists (use --force to overwrite)".toList
  | unanswered => "assistant request failed".toList

end CommandFailure

/-- What a command says. -/
structure Report where
  printed : Text
  failure : Option CommandFailure
deriving DecidableEq

namespace Report

/-- Everything went well. -/
def done (lines : List Text) : Report := ⟨lines.flatMap (· ++ ['\n']), none⟩

/-- The command failed after printing some lines. -/
def failed (lines : List Text) (f : CommandFailure) : Report := ⟨lines.flatMap (· ++ ['\n']), some f⟩

end Report

variable {m : Type → Type} [Monad m] [Storage m]

/-! ## New settings -/

/-- The initial settings in a mode. -/
def newSettings (batch : Bool) : Settings := { Settings.initial with batch := batch }

def describeNew (path : Text) (s : Settings) : List Text :=
  [ "Settings written to ".toList ++ path,
    "  Mode: ".toList ++ if s.batch then "batch".toList else "single file".toList,
    "  Watermark: opacity ".toList ++ s.opacity.plain ++ ", position ".toList ++ Text.ofInt s.x.toInt ++ 'x'
      :: Text.ofInt s.y.toInt ++ ", scale ".toList ++ s.scale.plain ]
    ++ if s.batch then
      ["  Files: ".toList ++ s.inputFolder ++ "/*.".toList ++ s.extension ++ " -> ".toList ++ s.outputFolder ++ ['/']]
    else []

def init (w : Wording) (path : Text) (batch force : Bool) : m Report := do
  if (← Storage.isPresent path) && !force then return .failed [] (.occupied path)
  let s := newSettings batch
  match ← s.save path with
  | .error e => return .failed [] (.problem (e.problem w))
  | .ok () => return .done (describeNew path s)

/-! ## Issues -/

/-- A blank line, then the issues or that there are none. -/
def describeIssues : List Issue → List Text
  | [] => [[], "Settings are valid.".toList]
  | issues =>
    [[], "Validation issues:".toList] ++ issues.map (fun i => "  - ".toList ++ i.message)
      ++ [[], Text.ofNat issues.length
        ++ " issue(s) found. They will be clamped or defaulted when compiling.".toList]

def validate (w : Wording) (path : Text) : m Report := do
  let heading := "Validating settings at: ".toList ++ path
  match ← Settings.load path with
  | .error e => return .failed [heading] (.problem (e.problem w))
  | .ok s => return .done (heading :: describeIssues s.issues)

/-! ## Compiling -/

/-- The dialect of the options, or else that of the configuration. -/
def chooseDialect (c : Config) (o : CompileOptions) : Except Problem Dialect :=
  match o.dialect with
  | some d => .ok d
  | none =>
    match Dialect.parse c.output.dialect with
    | .ok d => .ok d
    | .error e => .error (.config ("output.dialect: ".toList ++ e.message))

/-- The names of the options, or else those of the configuration. -/
def chooseMedia (c : Config) (o : CompileOptions) : Media where
  video := o.video <|> c.output.videoName
  image := o.image <|> c.output.imageName

/-- Saves compiled text in a folder and gives its path. A script that cannot be made executable is a failure, and
stays where it was written. -/
def saveText (folder : Text) (t : Target) (text : Text) : m (Except StorageFault Text) := do
  let path := Path.join folder t.fileName
  match ← Storage.createFolders folder with
  | .error f => return .error f
  | .ok () =>
    match ← Storage.write path text with
    | .error f => return .error f
    | .ok () =>
      match ← (if t.isExecutable then Storage.allowExecution path else pure (.ok ())) with
      | .error f => return .error f
      | .ok () => return .ok path

def compile (w : Wording) (c : Config) (path : Text) (o : CompileOptions) : m Report := do
  match ← Settings.load path with
  | .error e => return .failed [] (.problem (e.problem w))
  | .ok raw =>
    let s := raw.sanitized
    match chooseDialect c o with
    | .error p => return .failed [] (.problem p)
    | .ok d =>
      let text := s.compile (chooseMedia c o) d
      match o.saveTo with
      | none => return .done [text]
      | some folder =>
        match ← saveText folder (s.target d) text with
        | .error f => return .failed [] (.problem (.storage (w.storage f)))
        | .ok saved => return .done ["Wrote ".toList ++ saved]

/-! ## Asking -/

/-- Asks the assistant one question. The conversation ends with the command, so its times are left out. -/
def ask (w : Wording) (peer : Peer m) (env : Environment) (c : Config) (path : Text) (question : List Text) :
    m Report := do
  match ← Settings.load path with
  | .error e => return .failed [] (.problem (e.problem w))
  | .ok raw =>
    match Client.ofEnvironment c.assistant env with
    | .error f => return .failed [] (.problem (.ofFailure f))
    | .ok client =>
      let g := Generation.initial
      match (Conversation.start []).begin (List.intercalate [' '] question) raw.sanitized g.current [] with
      | .error f => return .failed [] (.problem (.ofFailure f))
      | .ok (e, conversation) =>
        let o ← e.run (client.ask w peer)
        let (answer, _) := conversation.finish o g.current []
        if answer.isError then return .failed [answer.text] .unanswered else return .done [answer.text]

/-! ## Showing -/

def describeTrim (t : Settings.TrimWindow) : Text :=
  match t.seek, t.length with
  | none, none => "full source".toList
  | seek, length =>
    "from ".toList ++ (seek.getD .zero).plain ++ "s, ".toList
      ++ (match length with
        | none => "to the end".toList
        | some d => d.plain ++ ['s'])

def describeSoundtrack (s : Settings) : Text :=
  match s.soundtrack with
  | .copied =>
    if s.changesSpeed then "copied unchanged (will drift out of sync)".toList else "copied unchanged".toList
  | .tempo factor => "atempo ".toList ++ factor.plain

def describeStage (g : Stage) : Text := "  ".toList ++ g.role.name ++ ": ".toList ++ g.text

def describe (path : Text) (s : Settings) : List Text :=
  [ "Settings: ".toList ++ path,
    "  ".toList ++ s.summary,
    [],
    "Watermark:".toList,
    "  Opacity: ".toList ++ s.opacity.plain,
    "  Position: ".toList ++ Text.ofInt s.x.toInt ++ 'x' :: Text.ofInt s.y.toInt,
    "  Scale: ".toList ++ s.scale.plain,
    [],
    "Timing:".toList,
    "  Trim: ".toList ++ describeTrim s.trimWindow,
    "  Speed: ".toList ++ s.videoSpeed.plain ++ ['x'],
    "  Audio: ".toList ++ describeSoundtrack s,
    [],
    "Framing:".toList,
    "  Aspect ratio: ".toList ++ Choice.word s.aspect,
    "  Resolution: ".toList ++ Choice.word s.resolution,
    [],
    "Filter stages (".toList ++ Text.ofNat s.chain.stages.length ++ "):".toList ]
    ++ s.chain.stages.map describeStage
    ++ ["  Mapped output: ".toList ++ s.chain.active.label]

def info (w : Wording) (path : Text) : m Report := do
  match ← Settings.load path with
  | .error e => return .failed [] (.problem (e.problem w))
  | .ok raw => return .done (describe path raw.sanitized)

/-! ## Any command -/

/-- Runs a command with a configuration. -/
def Command.run (w : Wording) (peer : Peer m) (env : Environment) (c : Config) : Command → m Report
  | .init path batch force => CommandLine.init w path batch force
  | .validate path => CommandLine.validate w path
  | .compile path options => CommandLine.compile w c path options
  | .ask path question => CommandLine.ask w peer env c path question
  | .info path => CommandLine.info w path

/-! ## The whole program -/

/-- What the program leaves behind: its exit code, what it printed, and the report of its failure. -/
structure Ending where
  code : Nat
  printed : Text
  report : Option Text
deriving DecidableEq

def versionLine : Text := "wmforge 0.1.0\n".toList

def usageText : Text :=
  ("Usage: wmforge [--verbose] <COMMAND>\n\n" ++
    "  init <PATH> [--batch] [--force]       Write a settings file with editor defaults\n" ++
    "  validate <PATH>                       Report problems in a settings file\n" ++
    "  compile <PATH> [--dialect <DIALECT>] [--video <NAME>] [--watermark <NAME>] [--save <FOLDER>]\n" ++
    "                                        Compile settings into a command or batch script\n" ++
    "  ask <PATH> [QUESTION]...              Ask the assistant about the settings\n" ++
    "  info <PATH>                           Show settings and the compiled filter stages\n").toList

namespace Ending

/-- How the program ends where no command is run. -/
def ofStop : Stop → Ending
  | .usage => ⟨2, [], none⟩
  | .help => ⟨0, usageText, none⟩
  | .version => ⟨0, versionLine, none⟩

/-- How the program ends after a command. -/
def ofReport (r : Report) : Ending :=
  match r.failure with
  | none => ⟨0, r.printed, none⟩
  | some f => ⟨1, r.printed, some ("Error: ".toList ++ f.message)⟩

end Ending

end Watermark.CommandLine
