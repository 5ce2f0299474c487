import ScriptHost.Signatures
import ScriptHost.Yaml.Reader
import ScriptHost.Yaml.Writer

/-!
# Signature files

Exported signatures are kept in YAML files.  A file that holds nothing, or a value that counts
as nothing, stands for no groups at all; any other file has to be a mapping, in which the
groups are a mapping too.  Further entries are kept as they are.
-/

namespace ScriptHost

/-- Why a signature file cannot be used. -/
inductive SignatureError where
  | notYaml
  | noModules
  deriving DecidableEq

namespace SignatureError

/-- How the failure is reported. -/
def kind : SignatureError → FailureKind
  | .notYaml => .parsing
  | .noModules => .value

/-- The wording of the failure; for a text that is not YAML there is none. -/
def message? : SignatureError → Option String
  | .notYaml => none
  | .noModules => some "Signature file must map \"modules\" to module entries"

end SignatureError

namespace Signatures

/-- The text of a signature file. -/
def write (groups : Signatures) : String := Yaml.write groups.toDatum

/-- The entries of a signature file, completed by an empty mapping of groups if it has none. -/
def complete (entries : List (Datum × Datum)) : Except SignatureError Datum :=
  match Datum.find? entries modulesKey with
  | some (.map _) => .ok (.map entries)
  | some _ => .error .noModules
  | none => .ok (.map (entries ++ [(.string modulesKey, .map [])]))

/-- The content of a signature file. -/
def read (text : String) : Except SignatureError Datum :=
  match Yaml.read? text with
  | none => .error .notYaml
  | some d =>
    if !d.truthy then complete []
    else match d with
      | .map entries => complete entries
      | _ => .error .noModules

end Signatures
end ScriptHost
