import ScriptHost.Program

/-!
# The command line program

Reads the files that the command line can name, runs the program on them, and carries out
what it says: texts, a changed file, the exit code.
-/

open ScriptHost

/-- The paths that an argument can name: the argument, and what follows an equals sign. -/
def namedPaths (arguments : List String) : List String :=
  Config.defaultFile :: arguments.flatMap fun a =>
    [a, String.ofList ((a.toList.dropWhile (· != '=')).drop 1)]

/-- The files among paths. -/
def readFiles (paths : List String) : IO (List (String × String)) :=
  paths.filterMapM fun (path : String) => do
    try
      return some (path, ← IO.FS.readFile path)
    catch _ =>
      return none

/-- Ends with a failure. -/
def report (kind : String) (message : Option String) : IO UInt32 := do
  IO.eprintln (match message with
    | some m => kind ++ ": " ++ m
    | none => kind)
  return 1

def main (arguments : List String) : IO UInt32 := do
  let here ← IO.currentDir
  let files := Files.ofList here.toString (← readFiles (namedPaths arguments))
  let o := Program.run files arguments
  for (path, text) in o.files.entries do
    if files.find? path ≠ some text then
      IO.FS.writeFile (Files.written path) text
  IO.print o.output
  IO.eprint o.errors
  match o.ending with
  | .returned code | .exited code => return code.toUInt32
  | .misconfigured e => report ((e.kind?.map FailureKind.name).getD "") e.message?
  | .unwritable e => report e.kind.name e.message
  | .failed e wording => report e.className wording.toOption
