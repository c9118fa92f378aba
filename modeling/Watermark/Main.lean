import Watermark.CommandLine.Run

/-!
# The command line program

Runs one command on the files of the machine. The program has no network of its own: a question ends with the
report that the provider cannot be reached.
-/

namespace Watermark.Program

/-- The result of an action, its failure as a fault of storage. -/
def attempt {α : Type} (act : IO α) : IO (Except StorageFault α) := do
  try
    return .ok (← act)
  catch e =>
    return .error (match e with
      | .noFileOrDirectory .. => .notFound
      | .alreadyExists .. => .alreadyExists
      | e => .other (toString e).toList)

/-- Read and write for the owner, read for the others, and execution for everyone. -/
def everyoneExecutes : IO.FileRight where
  user := { read := true, write := true, execution := true }
  group := { read := true, execution := true }
  other := { read := true, execution := true }

/-- Whether the path leads to something. -/
def leadsSomewhere (path : Text) : IO Bool := do
  match ← attempt (IO.FS.realPath (String.ofList path)) with
  | .ok _ => return true
  | .error _ => return false

instance : Storage IO where
  isPresent := leadsSomewhere
  isFolder path := leadsSomewhere (path ++ "/.".toList)
  read path := do
    match ← attempt (IO.FS.readFile (String.ofList path)) with
    | .ok s => return .ok s.toList
    | .error f => return .error f
  makeFolder path := attempt (IO.FS.createDir (String.ofList path))
  write path text := attempt (IO.FS.writeFile (String.ofList path) (String.ofList text))
  allowExecution path := attempt (IO.setAccessRights (String.ofList path) everyoneExecutes)

def unreachable : Peer IO := fun _ => return .error .unreachable

/-- The value of a variable of the environment. -/
def lookUp (name : Text) : IO (Option Text) := do
  return (← IO.getEnv (String.ofList name)).map String.toList

/-- The environment with just the variables named. -/
def environment (names : List Text) : IO Environment := do
  let values ← names.mapM fun n => do return (n, ← lookUp n)
  return fun n => (values.lookup n).join

def finish (e : CommandLine.Ending) : IO UInt32 := do
  IO.print (String.ofList e.printed)
  if let some report := e.report then IO.eprintln (String.ofList report)
  return .ofNat e.code

def run (words : List Text) : IO UInt32 := do
  match CommandLine.parse words with
  | .error stop =>
    if stop = .usage then IO.eprint (String.ofList CommandLine.usageText)
    finish (.ofStop stop)
  | .ok command =>
    let config ← Config.load (Config.path (← environment ["XDG_CONFIG_HOME".toList, "HOME".toList]))
    let env ← environment [config.assistant.apiKeyEnv]
    finish (.ofReport (← command.run .standard unreachable env config))

end Watermark.Program

def main (args : List String) : IO UInt32 := Watermark.Program.run (args.map String.toList)
