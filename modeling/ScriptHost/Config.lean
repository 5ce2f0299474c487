import ScriptHost.Features

/-!
# Configuration

Settings by name in two layers.  The lower one holds the defaults, what files set and what
the program sets; the upper one holds what the command line overrides and wins over the
lower one, whatever is set there later.  A reset drops both and leaves the defaults.

What is set is a datum, or features that have been worked out already.  Files and command lines
hold data only.
-/

namespace ScriptHost

/-- What a name can be set to. -/
inductive Setting where
  | datum (d : Datum)
  /-- Features as they are, and not as a mapping. -/
  | features (fs : Features)

instance : Coe Datum Setting := ⟨.datum⟩

namespace Setting

/-- The kind of features, which no script value has. -/
def featuresKind : Kind := .foreign "Features"

/-- The integer that a setting converts to. -/
def toInteger : Setting → Except ConvertError Int
  | .datum d => d.toInteger
  | .features _ => .error (.noInteger featuresKind)

/-- The features that a setting stands for. -/
def toFeatures : Setting → Except FeatureError Features
  | .datum d => Features.ofDatum d
  | .features fs => .ok fs

end Setting

/-- Settings by name, the names in order of first entry. -/
abbrev Settings := List (String × Setting)

namespace Settings

/-- The setting of a name. -/
def get? (s : Settings) (key : String) : Option Setting :=
  (s.find? fun entry => entry.1 == key).map (·.2)

/-- Enters a setting. -/
def put (s : Settings) (key : String) (value : Setting) : Settings :=
  if s.any fun entry => entry.1 == key then
    s.map fun entry => if entry.1 == key then (key, value) else entry
  else s ++ [(key, value)]

/-- Enters settings in order. -/
def putAll (s : Settings) (entries : Settings) : Settings :=
  entries.foldl (fun s entry => s.put entry.1 entry.2) s

end Settings

/-- The configuration in force. -/
structure Config where
  settings : Settings
  overrides : Settings

namespace Config

def precisionKey : String := "float_precision_decimals"

def arityKey : String := "max_native_arity"

def featuresKey : String := "features"

/-- The settings that hold unless something else is set. -/
def defaults : Settings :=
  [(precisionKey, Datum.int 10), (arityKey, Datum.int 20), (featuresKey, Datum.map [])]

/-- The configuration at the start and after a reset. -/
def initial : Config := ⟨defaults, []⟩

/-- The setting of a name, an override before all else. -/
def get? (c : Config) (key : String) : Option Setting :=
  (c.overrides.get? key).or (c.settings.get? key)

/-- Enters a setting below the overrides. -/
def set (c : Config) (key : String) (value : Setting) : Config :=
  { c with settings := c.settings.put key value }

/-- Enters an override. -/
def setOverride (c : Config) (key : String) (value : Setting) : Config :=
  { c with overrides := c.overrides.put key value }

/-- A setting as an integer. -/
def integer (c : Config) (key : String) : Except ConvertError Int :=
  ((c.get? key).getD Datum.unit).toInteger

/-- The places that displayed floats are rounded to. -/
def precision (c : Config) : Precision := c.integer precisionKey

/-- The greatest number of parameters of a native function. -/
def maxArity (c : Config) : Except ConvertError Int := c.integer arityKey

/-- The features that the configuration leaves on. -/
def features (c : Config) : Except FeatureError Features :=
  ((c.get? featuresKey).getD Datum.unit).toFeatures

end Config
end ScriptHost
