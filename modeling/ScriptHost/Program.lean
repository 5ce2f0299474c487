import ScriptHost.Config.Loading
import ScriptHost.Host.Engines
import ScriptHost.Signatures.Reading

/-!
# The program

The command line program lists packages, or the signatures of the functions that an engine
offers, in readable form or as YAML.  `Program.run` maps a command line and the files it can
see to all that the program does: its texts, the files it leaves and how it ends.
-/

namespace ScriptHost
namespace Program

open CommandLine

/-- How the program ends. -/
inductive Ending where
  /-- With the code of a command. -/
  | returned (code : Nat)
  /-- Early, because of the command line. -/
  | exited (code : Nat)
  | misconfigured (e : ConfigError)
  | unwritable (e : FileError)
  /-- A failure of the host, with its wording if that can be told. -/
  | failed (e : Failure) (wording : Except ConvertError String)

/-- All that the program does. -/
structure Outcome where
  ending : Ending
  output : String
  errors : String
  files : Files

/-- The grammar of the command line. -/
def grammar : Grammar :=
  ⟨⟨Config.program, "Inspect native function packages",
    [helpOption,
     ⟨"config", ["--config"], .value .text "CONFIG", "Path to a JSON5 config file"⟩,
     Config.disableOption,
     ⟨"verbose", ["-v", "--verbose"], .switch, "Log registrations"⟩]⟩,
   [("packages", "List registered packages", ⟨Config.program ++ " packages", "", [helpOption]⟩),
    ("signatures", "List function signatures",
      ⟨Config.program ++ " signatures", "",
       [helpOption,
        ⟨"package", ["--package"], .value .text "PACKAGE", "Only this package"⟩,
        ⟨"yaml", ["--yaml"], .value .text "FILE", "Write YAML to FILE ('-' for stdout)"⟩]⟩)]⟩

/-- Lines of text. -/
def lines (texts : List String) : String := String.join (texts.map (· ++ "\n"))

/-- The width of the column of names. -/
def nameWidth : Nat := 24

/-- A package in the list of packages. -/
def packageLine (p : PackageDef) : String :=
  p.name ++ blanks (nameWidth - p.name.length) ++ " " ++ p.description

/-- An engine with the string package, or with the package of a name alone. -/
def engineWith (fs : Features) (package : Option String) : Act EngineId := do
  match package with
  | none => Act.newEngine (some fs) true
  | some name => do
    let definition ← Act.definition name
    let e ← Act.newEngine (some fs) false
    let id ← Act.buildPackage definition (some fs) none
    match ← Act.ask fun s => s.packages[id]? with
    | some p => Act.loadTable e p.table
    | none => pure ()
    pure e

/-- An option that was given with a text. -/
def given (p : Parsed) (name : String) : Option String := (p.last? name).filter (!·.isEmpty)

/-- Lists signatures: of all tables of an engine, or of one package. -/
def signatures (p : Parsed) (fs : Features) (log : Host → String) (s : Host) (files : Files) :
    Outcome :=
  match engineWith fs (given p "package") s with
  | (.error (.unknownPackage name), _) =>
    ⟨.returned 1, "", "error: " ++ Failure.unknownPackageText name ++ "\n", files⟩
  | (.error e, s) => ⟨.failed e (e.message s.heap s.config.precision), "", log s, files⟩
  | (.ok e, s) =>
    match given p "yaml" with
    | none => ⟨.returned 0, lines (s.signatures e), log s, files⟩
    | some path =>
      let text := (Signatures.ofTables (s.tablesOf e)).write
      if path = "-" then ⟨.returned 0, text, log s, files⟩
      else match files.write path text with
        | .ok files => ⟨.returned 0, "", log s, files⟩
        | .error e => ⟨.unwritable e, "", log s, files⟩

/-- Runs the command that was asked for; without one, shows the help page. -/
def perform (p : Parsed) (fs : Features) (s : Host) (files : Files) : Outcome :=
  let log := fun s : Host => if p.has "verbose" then lines (s.log.map Record.line) else ""
  match p.command with
  | some "packages" => ⟨.returned 0, lines ((Registry.sorted s.registry).map packageLine), "", files⟩
  | some "signatures" => signatures p fs log s files
  | _ => ⟨.returned 0, grammar.helpPage, "", files⟩

/-- Runs the program. -/
def run (files : Files) (arguments : List String) : Outcome :=
  match grammar.read arguments with
  | .error e => ⟨.exited e.code, e.output, e.errors, files⟩
  | .ok p => match Config.initial.start files (some arguments) with
    | (.error (.exit e), _) => ⟨.exited e.code, e.output, e.errors, files⟩
    | (.error e, _) => ⟨.misconfigured e, "", "", files⟩
    | (.ok _, c) => match c.features with
      | .error e => ⟨.misconfigured (.features e), "", "", files⟩
      | .ok fs => perform p fs { Host.initial with config := c } files

end Program
end ScriptHost
