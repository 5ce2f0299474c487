import ScriptHost.CommandLine.Reading
import ScriptHost.Config
import ScriptHost.Files
import ScriptHost.Json5

/-!
# Configuration from files and command lines

A configuration file is a JSON5 object whose entries are entered as settings; a file that does
not exist changes nothing.  A command line can name a file to load, switch features off and
limit the number of parameters.  The last two are overrides; the features that are not
switched off are those that the configuration leaves on at that time.

A step that fails keeps what it has done before: a file that is loaded stays loaded when the
features then turn out to be wrong.
-/

namespace ScriptHost

/-- Why the configuration cannot be brought up. -/
inductive ConfigError where
  /-- The text of a file is not JSON5. -/
  | notJson5
  | notObject (path : String)
  | file (e : FileError)
  | features (e : FeatureError)
  /-- The command line ends the program. -/
  | exit (e : CommandLine.Exit)

namespace ConfigError

/-- How the failure is reported, unless the program ends. -/
def kind? : ConfigError → Option FailureKind
  | .notJson5 | .notObject _ => some .value
  | .file e => some e.kind
  | .features e => some e.kind
  | .exit _ => none

/-- The wording of the failure; for a text that is not JSON5 there is none. -/
def message? : ConfigError → Option String
  | .notJson5 | .exit _ => none
  | .notObject path => some (path ++ ": top level of a config file must be an object")
  | .file e => some e.message
  | .features e => some e.message

end ConfigError

namespace Config

/-- The name of the file that is loaded if it exists. -/
def defaultFile : String := "scriptbind.json5"

/-- The settings that a file holds. -/
def settingsOf (entries : List (Datum × Datum)) : Settings :=
  entries.map fun (key, value) => (String.ofList key.plain, .datum value)

/-- Loads a file that is shown by a path; the answer says whether there is one. -/
def load (c : Config) (files : Files) (path : String) : Except ConfigError (Bool × Config) :=
  match files.read? path with
  | .error e => .error (.file e)
  | .ok none => .ok (false, c)
  | .ok (some text) => match Json5.read? text with
    | some (.map entries) =>
      .ok (true, { c with settings := c.settings.putAll (settingsOf entries) })
    | some _ => .error (.notObject path)
    | none => .error .notJson5

/-- Loads a named file. -/
def loadFile (c : Config) (files : Files) (path : String) : Except ConfigError (Bool × Config) :=
  c.load files (Files.shortPath path)

/-- Loads the file of the working directory. -/
def loadDefaults (c : Config) (files : Files) : Except ConfigError Config :=
  (c.load files (Files.written (files.directory ++ [defaultFile]))).map (·.2)

/-- The name of the program. -/
def program : String := "scriptbind"

/-- The option that switches a feature off. -/
def disableOption : CommandLine.OptionSpec :=
  ⟨"disable", ["--disable"], .value (.choice Feature.names) "",
   "Disable an optional feature (repeatable)"⟩

/-- The options of the configuration. -/
def grammar : CommandLine.Grammar :=
  ⟨⟨program, "scriptbind configuration",
    [⟨"config", ["--config"], .value .text "CONFIG", "Path to config file"⟩, disableOption,
     ⟨"max_native_arity", ["--max-native-arity"], .value .integer "MAX_NATIVE_ARITY",
      "Maximum number of parameters a native function may take"⟩]⟩, []⟩

/-- Loads the file that a command line names. -/
def applyFile (c : Config) (files : Files) (p : CommandLine.Parsed) : Except ConfigError Config :=
  match p.last? "config" with
  | some path => if path.isEmpty then .ok c else (c.loadFile files path).map (·.2)
  | none => .ok c

/-- Switches off the features that a command line names. -/
def applyDisabled (c : Config) (p : CommandLine.Parsed) : Except ConfigError Config :=
  match p.all "disable" with
  | [] => .ok c
  | names => match c.features.bind (·.withoutNames names) with
    | .ok fs => .ok (c.setOverride featuresKey fs.toDatum)
    | .error e => .error (.features e)

/-- Limits the number of parameters as a command line says. -/
def applyArity (c : Config) (p : CommandLine.Parsed) : Config :=
  match (p.last? "max_native_arity").bind fun s => readInteger? s.toList with
  | some n => c.setOverride arityKey (Datum.int n)
  | none => c

/-- Applies a command line: the failure, if there is one, and the configuration after it. -/
def applyArguments (c : Config) (files : Files) (arguments : List String) :
    Except ConfigError Unit × Config :=
  match grammar.readKnown arguments with
  | .error e => (.error (.exit e), c)
  | .ok p => match c.applyFile files p with
    | .error e => (.error e, c)
    | .ok c => match c.applyDisabled p with
      | .error e => (.error e, c)
      | .ok c => (.ok (), c.applyArity p)

/-- Brings the configuration up: the file of the working directory, then the command line. -/
def start (c : Config) (files : Files) (arguments : Option (List String)) :
    Except ConfigError Unit × Config :=
  match c.loadDefaults files with
  | .error e => (.error e, c)
  | .ok c => match arguments with
    | some arguments => c.applyArguments files arguments
    | none => (.ok (), c)

end Config
end ScriptHost
