import Watermark.Script.Dialect

/-!
# Arguments of the command line

A command line is a list of words. Switches stand among them as `--name`, `--name value`, `--name=value`, or by
their letter as `-x`, `-x value`, `-xvalue`, `-x=value`, where letters of switches without value can share one
dash. Behind a lone `--` every word stands for itself. A switch can be given once.

`parse` finds out which command is meant. It stops at the first thing that decides: a word that cannot be
understood, or a switch that asks for help or for the version.
-/

namespace Watermark.CommandLine

/-- What the compile command can be told. -/
structure CompileOptions where
  dialect : Option Dialect
  video : Option Text
  image : Option Text
  /-- The folder to save to. -/
  saveTo : Option Text
deriving DecidableEq

/-- What the program can be asked to do. -/
inductive Command where
  /-- Writes a file with initial settings. -/
  | init (path : Text) (batch force : Bool)
  /-- Reports the issues of a settings file. -/
  | validate (path : Text)
  /-- Compiles a settings file. -/
  | compile (path : Text) (options : CompileOptions)
  /-- Asks the assistant about a settings file; the question is given word by word. -/
  | ask (path : Text) (question : List Text)
  /-- Shows a settings file and its stages. -/
  | info (path : Text)
deriving DecidableEq

/-- Why there is no command to run. -/
inductive Stop where
  /-- The words cannot be understood. -/
  | usage
  | help
  | version
deriving DecidableEq

/-! ## Switches -/

/-- A word or letter with a dash. -/
inductive Switch where
  | verbose
  | help
  | version
  | batch
  | force
  | dialect
  | video
  | watermark
  | save
deriving DecidableEq

namespace Switch

def name : Switch → Text
  | verbose => "verbose".toList
  | help => "help".toList
  | version => "version".toList
  | batch => "batch".toList
  | force => "force".toList
  | dialect => "dialect".toList
  | video => "video".toList
  | watermark => "watermark".toList
  | save => "save".toList

def letter? : Switch → Option Char
  | verbose => some 'v'
  | help => some 'h'
  | version => some 'V'
  | force => some 'f'
  | dialect => some 'd'
  | batch | video | watermark | save => none

def takesValue : Switch → Bool
  | dialect | video | watermark | save => true
  | verbose | help | version | batch | force => false

/-- Whether a value makes sense for a switch. -/
def accepts : Switch → Text → Bool
  | dialect, v => (Dialect.parse v).isOk
  | save, v => !v.isEmpty
  | _, _ => true

end Switch

/-- The commands by name, without what they are told. -/
inductive Verb where
  | init
  | validate
  | compile
  | ask
  | info
deriving DecidableEq

namespace Verb

def all : List Verb := [.init, .validate, .compile, .ask, .info]

def name : Verb → Text
  | .init => "init".toList
  | .validate => "validate".toList
  | .compile => "compile".toList
  | .ask => "ask".toList
  | .info => "info".toList

def ofName? (w : Text) : Option Verb := all.find? fun v => v.name == w

/-- The switches that a command knows. -/
def switches : Verb → List Switch
  | .init => [.verbose, .help, .batch, .force]
  | .compile => [.verbose, .help, .dialect, .video, .watermark, .save]
  | .validate | .ask | .info => [.verbose, .help]

/-- Whether words may follow the path. -/
def takesWords : Verb → Bool
  | .ask => true
  | _ => false

end Verb

/-- The switches that may stand before the command. -/
def generalSwitches : List Switch := [.verbose, .help, .version]

/-! ## Taking the words apart -/

/-- What was found so far: switches with their values, and the words that stand for themselves. -/
structure Found where
  switches : List (Switch × Text)
  words : List Text

namespace Found

def nothing : Found := ⟨[], []⟩

/-- A switch was found. -/
def give (g : Found) (s : Switch) (value : Text) : Except Stop Found :=
  match s with
  | .help => .error .help
  | .version => .error .version
  | _ =>
    if (g.switches.lookup s).isSome || !s.accepts value then .error .usage
    else .ok { g with switches := g.switches ++ [(s, value)] }

/-- A word was found: the path, or one of those that follow it. -/
def addWord (g : Found) (more : Bool) (w : Text) : Except Stop Found :=
  if g.words.isEmpty then if w.isEmpty then .error .usage else .ok { g with words := [w] }
  else if more then .ok { g with words := g.words ++ [w] }
  else .error .usage

def has (g : Found) (s : Switch) : Bool := (g.switches.lookup s).isSome

def value? (g : Found) (s : Switch) : Option Text := g.switches.lookup s

end Found

/-- A name behind two dashes, and the value behind an equals sign. The second part is a switch that waits for its
value. -/
def giveLong (known : List Switch) (g : Found) (w : Text) : Except Stop (Found × Option Switch) :=
  let name := w.takeWhile (· != '=')
  match known.find? fun s => s.name == name, w.dropWhile (· != '=') with
  | none, _ => .error .usage
  | some s, [] => if s.takesValue then .ok (g, some s) else do return (← g.give s [], none)
  | some s, _ :: v => if s.takesValue then do return (← g.give s v, none) else .error .usage

/-- Letters behind one dash; what follows the letter of a switch with a value is its value. -/
def giveLetters (known : List Switch) : Found → Text → Except Stop (Found × Option Switch)
  | g, [] => .ok (g, none)
  | g, c :: rest =>
    match known.find? fun s => s.letter? == some c with
    | none => .error .usage
    | some s =>
      if s.takesValue then
        match rest with
        | [] => .ok (g, some s)
        | '=' :: v => do return (← g.give s v, none)
        | v => do return (← g.give s v, none)
      else do giveLetters known (← g.give s []) rest

/-- What a word is. -/
inductive Shape where
  | separator
  | long (w : Text)
  | letters (w : Text)
  | word

def shape : Text → Shape
  | ['-', '-'] => .separator
  | '-' :: '-' :: w => .long w
  | ['-'] => .word
  | '-' :: w => .letters w
  | _ => .word

/-- Takes the words of a command apart; `waiting` is a switch that still needs its value. -/
def takeApart (v : Verb) : Option Switch → Found → List Text → Except Stop Found
  | none, g, [] => .ok g
  | some _, _, [] => .error .usage
  | some s, g, w :: ws =>
    match shape w with
    | .word => do takeApart v none (← g.give s w) ws
    | _ => .error .usage
  | none, g, w :: ws =>
    match shape w with
    | .separator => ws.foldlM (fun g w => g.addWord v.takesWords w) g
    | .long w => do
      let (g, waiting) ← giveLong v.switches g w
      takeApart v waiting g ws
    | .letters w => do
      let (g, waiting) ← giveLetters v.switches g w
      takeApart v waiting g ws
    | .word => do takeApart v none (← g.addWord v.takesWords w) ws

/-! ## The command -/

/-- The command of a verb with what was found behind it. -/
def command (v : Verb) (g : Found) : Except Stop Command :=
  match v, g.words with
  | _, [] => .error .usage
  | .init, path :: _ => .ok (.init path (g.has .batch) (g.has .force))
  | .validate, path :: _ => .ok (.validate path)
  | .compile, path :: _ =>
    .ok (.compile path
      { dialect := (g.value? .dialect).bind fun w => (Dialect.parse w).toOption
        video := g.value? .video
        image := g.value? .watermark
        saveTo := g.value? .save })
  | .ask, path :: question => .ok (.ask path question)
  | .info, path :: _ => .ok (.info path)

/-- The words behind `help`: none, or the command to be explained. -/
def parseHelp : List Text → Stop
  | [] => .help
  | [w] => if (Verb.ofName? w).isSome || w == "help".toList then .help else .usage
  | _ => .usage

/-- Takes the words before the command apart, then those of the command. -/
def parseFrom : Found → List Text → Except Stop Command
  | _, [] => .error .usage
  | g, w :: ws =>
    match shape w with
    | .separator => .error .usage
    | .long w => do parseFrom (← giveLong generalSwitches g w).1 ws
    | .letters w => do parseFrom (← giveLetters generalSwitches g w).1 ws
    | .word =>
      match Verb.ofName? w with
      | some v => do command v (← takeApart v none .nothing ws)
      | none => .error (if w == "help".toList then parseHelp ws else .usage)

/-- The command that the words of a command line ask for. -/
def parse (words : List Text) : Except Stop Command := parseFrom .nothing words

end Watermark.CommandLine
