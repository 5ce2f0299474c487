import ScriptHost.Config.Loading
import Mathlib.Data.List.DropRight

/-!
# Which setting counts

A configuration is worked on by steps: files are loaded, command lines applied, single settings
entered, and everything dropped again.  A step may fail, and may have done part of its work by then.
Whatever the run, the setting of a name is that of the last command line that overrode it, or else
the last one that was entered for it, or else the default, all counted from the last reset.

* `Settings.last?`: the value that a list of entries gives to a name, the last one counting;
  `Settings.get?_putAll`: entering a list is looking there first.
* `Config.Step`: a step, with the files that it sees; `Step.entries`, `Step.overrides`: what it
  enters and what it overrides.  A command line that fails overrides nothing, but the file that it
  names may have been loaded by then.
* `Step.state_perform`: a step enters and overrides just this.
* `Config.period`: the steps since the last reset.
* `precedence_after`: the precedence, and that a feature that a command line has switched off is
  off.
-/

namespace ScriptHost

/-! ## Names of features -/

/-- A feature is found under its name. -/
theorem Feature.ofName?_name (f : Feature) : Feature.ofName? f.name = some f := by
  cases f <;> decide

/-- An integer counts as false if it is zero. -/
theorem Scalar.truthy_of_integer {s : Scalar} {n : Int}
    (hquantity : s.quantity? = some (.ofInt n)) :
    s.truthy = decide (n ≠ 0) := by
  have hunit (k : Nat) : ((Nat.pow 2 k : Nat) : Int) ≠ 0 :=
    Int.natCast_ne_zero.mpr (Nat.two_pow_pos k).ne'
  rw [truthy, hquantity]
  dsimp only
  rw [decide_eq_decide, not_iff_not, Quantity.ofInt, Quantity.finite.injEq, Int.mul_eq_zero,
    or_iff_left (hunit _)]

namespace Features

theorem eq_nil_of_sortedNames_eq_nil {names : List String} (h : sortedNames names = []) :
    names = [] := by
  cases names with
  | nil => rfl
  | cons s rest =>
    have hperm := List.mergeSort_perm (s :: rest).eraseDups fun s t => decide (s ≤ t)
    rw [← sortedNames, h, List.eraseDups_cons] at hperm
    exact absurd hperm.symm.eq_nil (List.cons_ne_nil _ _)

/-- Names of which none is unknown are names of features. -/
theorem isSome_of_unknownNames_eq_nil {names : List String} (h : unknownNames names = []) :
    ∀ s ∈ names, (Feature.ofName? s).isSome := by
  intro s hs
  have hfilter := List.filter_eq_nil_iff.mp (eq_nil_of_sortedNames_eq_nil h) s hs
  rw [Option.isNone_iff_eq_none] at hfilter
  exact Option.isSome_iff_ne_none.mpr hfilter

theorem unknownNames_names (fs : List Feature) : unknownNames (fs.map Feature.name) = [] := by
  have hfilter : (fs.map Feature.name).filter (fun s => (Feature.ofName? s).isNone) = [] := by
    refine List.filter_eq_nil_iff.mpr fun s hs => ?_
    obtain ⟨f, -, rfl⟩ := List.mem_map.mp hs
    rw [Feature.ofName?_name]
    exact Bool.false_ne_true
  rw [unknownNames, hfilter, sortedNames, List.eraseDups_nil, List.mergeSort_nil]

/-- Names of features are accepted. -/
theorem checkNames_names (fs : List Feature) :
    checkNames (fs.map fun f => .string f.name) = .ok () := by
  have hhashable : unhashableIn? (fs.map fun f => .string f.name) = none := by
    induction fs with
    | nil => rfl
    | cons f rest ih =>
      rw [List.map_cons, unhashableIn?, ih]
      rfl
  have htexts : textsOf (fs.map fun f => .string f.name) = fs.map Feature.name := by
    rw [textsOf, List.filterMap_map]
    exact (List.filterMap_eq_map (f := Feature.name)).symm ▸ rfl
  have hnone (p : Datum → Bool) (hp : ∀ f : Feature, p (.string f.name) = false) :
      (fs.map fun f => .string f.name).filter p = [] := by
    refine List.filter_eq_nil_iff.mpr fun d hd => ?_
    obtain ⟨f, -, rfl⟩ := List.mem_map.mp hd
    rw [hp f]
    exact Bool.false_ne_true
  rw [checkNames, hhashable]
  dsimp only
  rw [htexts, unknownNames_names, hnone _ fun f => rfl]

/-- Keys that are names of features are those of a list of features. -/
theorem exists_names {entries : List (Datum × Datum)}
    (h : ∀ entry ∈ entries, ∃ f : Feature, entry.1 = .string f.name) :
    ∃ fs : List Feature, entries.map (·.1) = fs.map fun f => .string f.name := by
  induction entries with
  | nil => exact ⟨[], rfl⟩
  | cons entry rest ih =>
    obtain ⟨⟨f, hf⟩, hrest⟩ := List.forall_mem_cons.mp h
    obtain ⟨fs, hfs⟩ := ih hrest
    exact ⟨f :: fs, by rw [List.map_cons, List.map_cons, hf, hfs]⟩

/-- A mapping of names of features says which are on; one without entries leaves all on. -/
theorem ofDatum_map {entries : List (Datum × Datum)}
    (h : ∀ entry ∈ entries, ∃ f : Feature, entry.1 = .string f.name) :
    ofDatum (.map entries) = .ok ⟨isOnIn entries⟩ := by
  obtain ⟨fs, hfs⟩ := exists_names h
  cases entries with
  | nil => rfl
  | cons entry rest =>
    rw [ofDatum, Datum.truthy, List.isEmpty_cons, Bool.not_false, if_neg (by decide), hfs,
      checkNames_names]
    rfl

theorem truthy_bool (b : Bool) : (Datum.bool b).truthy = b := by
  rw [Datum.bool, Datum.truthy, Scalar.truthy_of_integer (s := .bool b) rfl]
  cases b <;> rfl

theorem isOnIn_toDatum (fs : Features) (f : Feature) :
    isOnIn (Feature.all.map fun f => (.string f.name, .bool (fs.has f))) f = fs.has f := by
  have hkey : ∀ g : Feature, (Datum.string g.name).sameKey (.string f.name) = decide (g = f) := by
    intro g
    cases f <;> cases g <;> rfl
  rw [isOnIn, Datum.find?]
  cases f <;> simp [Feature.all, hkey, truthy_bool]

/-- The setting that says which features are on is read back. -/
theorem ofDatum_toDatum (fs : Features) : ofDatum fs.toDatum = .ok fs := by
  have hkeys : ∀ entry ∈ Feature.all.map fun f => (Datum.string f.name, Datum.bool (fs.has f)),
      ∃ f : Feature, entry.1 = .string f.name := by
    intro entry hentry
    obtain ⟨f, -, rfl⟩ := List.mem_map.mp hentry
    exact ⟨f, rfl⟩
  rw [toDatum, ofDatum_map hkeys]
  exact congrArg (fun has => Except.ok (Features.mk has)) (funext (isOnIn_toDatum fs))

end Features

/-! ## Settings by name -/

namespace Settings

/-- The value that entries give to a name, the last one counting. -/
def last? (entries : Settings) (key : String) : Option Setting :=
  (entries.filterMap fun entry => if entry.1 = key then some entry.2 else none).getLast?

theorem last?_append (s t : Settings) (key : String) :
    last? (s ++ t) key = (t.last? key).or (s.last? key) := by
  rw [last?, List.filterMap_append, List.getLast?_append, last?, last?]

theorem last?_singleton (key other : String) (value : Setting) :
    last? [(key, value)] other = if key = other then some value else none := by
  rw [last?, List.filterMap_cons]
  split <;> simp_all

/-- An entry under another name does not matter, one under this name is the first. -/
theorem get?_cons (entry : String × Setting) (s : Settings) (key : String) :
    get? (entry :: s) key = if entry.1 = key then some entry.2 else s.get? key := by
  rw [get?, List.find?_cons]
  by_cases h : entry.1 = key
  · rw [if_pos h, h, beq_self_eq_true]
    rfl
  · rw [if_neg h, beq_eq_false_iff_ne.mpr h]
    rfl

/-- A name that is there gets the value in place of the one it has. -/
theorem get?_replace (s : Settings) (key other : String) (value : Setting) :
    get? (s.map fun entry => if entry.1 == key then (key, value) else entry) other =
      if key = other then (s.get? key).map fun _ => value else s.get? other := by
  induction s with
  | nil => simp [get?]
  | cons entry s ih =>
    rw [List.map_cons, get?_cons, ih, get?_cons, get?_cons]
    by_cases hentry : entry.1 = key
    · by_cases hkey : key = other <;> simp [hentry, hkey]
    · by_cases hkey : key = other
      · subst hkey
        simp [hentry]
      · simp [hentry, hkey]

theorem isSome_get?_iff (s : Settings) (key : String) :
    (s.get? key).isSome = s.any fun entry => entry.1 == key := by
  rw [get?, Option.isSome_map, Bool.eq_iff_iff, List.find?_isSome, List.any_eq_true]

/-- **Entering a setting changes this setting only.** -/
theorem get?_put (s : Settings) (key other : String) (value : Setting) :
    (s.put key value).get? other = if key = other then some value else s.get? other := by
  have hsome := isSome_get?_iff s key
  rw [put]
  split
  · rename_i hany
    rw [hany] at hsome
    obtain ⟨old, hold⟩ := Option.isSome_iff_exists.mp hsome
    rw [get?_replace, hold]
    rfl
  · rename_i hany
    rw [Bool.not_eq_true] at hany
    rw [hany, Option.isSome_eq_false_iff, Option.isNone_iff_eq_none] at hsome
    rw [get?, List.find?_append, Option.map_or, ← get?]
    by_cases hkey : key = other
    · subst hkey
      rw [hsome, if_pos rfl]
      simp
    · rw [if_neg hkey]
      simp [hkey]

/-- **What has been entered is looked at first, the last entry of all.** -/
theorem get?_putAll (s entries : Settings) (key : String) :
    (s.putAll entries).get? key = (entries.last? key).or (s.get? key) := by
  induction entries generalizing s with
  | nil => rfl
  | cons entry rest ih =>
    have hsplit : last? (entry :: rest) key = _ := last?_append [entry] rest key
    have hfirst : last? [entry] key = _ := last?_singleton entry.1 key entry.2
    rw [putAll, List.foldl_cons, ← putAll, ih, get?_put, hsplit, hfirst, Option.or_assoc]
    split <;> simp

theorem putAll_append (s entries more : Settings) :
    s.putAll (entries ++ more) = (s.putAll entries).putAll more :=
  List.foldl_append

end Settings

/-! ## Files -/

/-- The settings in the file that a path leads to; none are there if the file does not exist, and
there is no answer if loading it fails. -/
def Files.settings? (files : Files) (path : String) : Option Settings :=
  match files.read? path with
  | .error _ => none
  | .ok none => some []
  | .ok (some text) => match Json5.read? text with
    | some (.map entries) => some (Config.settingsOf entries)
    | _ => none

namespace Config

variable {c : Config} {files : Files} {path : String}

/-- The configuration with further settings below the overrides. -/
def enter (c : Config) (entries : Settings) : Config :=
  { c with settings := c.settings.putAll entries }

theorem enter_append (c : Config) (s t : Settings) : c.enter (s ++ t) = (c.enter s).enter t := by
  rw [enter, Settings.putAll_append, enter, enter]

/-- **A file is loaded as a whole or not at all.** -/
theorem load_cases (c : Config) (files : Files) (path : String) :
    (∃ entries found, files.settings? path = some entries ∧
      c.load files path = .ok (found, c.enter entries)) ∨
    ∃ x, files.settings? path = none ∧ c.load files path = .error x := by
  cases hread : files.read? path with
  | error x => exact .inr ⟨.file x, by rw [Files.settings?, hread], by rw [load, hread]⟩
  | ok found =>
    cases found with
    | none => exact .inl ⟨[], false, by rw [Files.settings?, hread], by rw [load, hread]; rfl⟩
    | some text =>
      rw [load, Files.settings?, hread]
      dsimp only
      cases Json5.read? text with
      | none => exact .inr ⟨.notJson5, rfl, rfl⟩
      | some d =>
        cases d with
        | map entries => exact .inl ⟨_, true, rfl, rfl⟩
        | _ => exact .inr ⟨.notObject path, rfl, rfl⟩

/-- The configuration with further overrides. -/
def overriding (c : Config) (entries : Settings) : Config :=
  { c with overrides := c.overrides.putAll entries }

@[simp] theorem overriding_nil (c : Config) : c.overriding [] = c := rfl

theorem overriding_append (c : Config) (s t : Settings) :
    c.overriding (s ++ t) = (c.overriding s).overriding t := by
  rw [overriding, Settings.putAll_append, overriding, overriding]

/-! ## What a command line says -/

open CommandLine (Parsed)

/-- The settings in the file that a command line names; there are none if it names no file. -/
def namedSettings? (files : Files) (p : Parsed) : Option Settings :=
  match p.last? "config" with
  | some path => if path.isEmpty then some [] else files.settings? (Files.shortPath path)
  | none => some []

/-- What a command line enters before it overrides anything: the file that it names. -/
def lineEntries (files : Files) (line : List String) : Settings :=
  match grammar.readKnown line with
  | .ok p => (namedSettings? files p).getD []
  | .error _ => []

/-- The features that a command line switches off. -/
def switchedOff (p : Parsed) : List Feature := (p.all "disable").filterMap Feature.ofName?

/-- The override of the features: those in force but the ones that are switched off. -/
def featureOverride (c : Config) (p : Parsed) : Settings :=
  match c.features, switchedOff p with
  | .ok fs, f :: off => [(featuresKey, (fs.without (f :: off)).toDatum)]
  | _, _ => []

/-- The override of the limit on parameters. -/
def arityOverride (p : Parsed) : Settings :=
  match (p.last? "max_native_arity").bind fun s => readInteger? s.toList with
  | some n => [(arityKey, Datum.int n)]
  | none => []

theorem applyFile_cases (c : Config) (files : Files) (p : Parsed) :
    (∃ entries, namedSettings? files p = some entries ∧
      c.applyFile files p = .ok (c.enter entries)) ∨
    ∃ x, namedSettings? files p = none ∧ c.applyFile files p = .error x := by
  rw [applyFile, namedSettings?]
  cases p.last? "config" with
  | none => exact .inl ⟨[], rfl, rfl⟩
  | some path =>
    dsimp only
    split
    · exact .inl ⟨[], rfl, rfl⟩
    · rw [loadFile]
      rcases load_cases c files (Files.shortPath path) with
        ⟨entries, found, hfile, hload⟩ | ⟨x, hfile, hload⟩
      · exact .inl ⟨entries, hfile, by rw [hload]; rfl⟩
      · exact .inr ⟨x, hfile, by rw [hload]; rfl⟩

/-- Features can only be switched off where it is known which are on. -/
theorem applyDisabled_cases (c : Config) (p : Parsed) :
    (c.applyDisabled p = .ok (c.overriding (c.featureOverride p)) ∧
      (switchedOff p ≠ [] → ∃ fs, c.features = .ok fs)) ∨
    ∃ x, c.applyDisabled p = .error x := by
  rw [applyDisabled, featureOverride, switchedOff]
  cases p.all "disable" with
  | nil =>
    refine .inl ⟨?_, fun h => absurd rfl h⟩
    cases c.features <;> rfl
  | cons name rest =>
    cases c.features with
    | error x => exact .inr ⟨.features x, rfl⟩
    | ok fs =>
      dsimp only [Except.bind]
      rw [Features.withoutNames]
      cases hunknown : Features.unknownNames (name :: rest) with
      | cons s more => exact .inr ⟨.features (.unknown (s :: more)), rfl⟩
      | nil =>
        obtain ⟨f, hf⟩ := Option.isSome_iff_exists.mp
          (Features.isSome_of_unknownNames_eq_nil hunknown name List.mem_cons_self)
        rw [List.filterMap_cons, hf]
        exact .inl ⟨rfl, fun _ => ⟨fs, rfl⟩⟩

theorem applyArity_eq (c : Config) (p : Parsed) :
    c.applyArity p = c.overriding (arityOverride p) := by
  rw [applyArity, arityOverride]
  cases (p.last? "max_native_arity").bind fun s => readInteger? s.toList <;> rfl

/-- What a command line that is accepted makes of the configuration with its file. -/
structure Accepts (c : Config) (p : Parsed) (after : Config) : Prop where
  eq : after = c.overriding (c.featureOverride p ++ arityOverride p)
  features : switchedOff p ≠ [] → ∃ fs, c.features = .ok fs

/-- **A command line enters and overrides, or fails and overrides nothing.** -/
theorem applyArguments_cases (c : Config) (files : Files) (line : List String) :
    (∃ p after, grammar.readKnown line = .ok p ∧
      c.applyArguments files line = (.ok (), after) ∧
      (c.enter (lineEntries files line)).Accepts p after) ∨
    ∃ x, c.applyArguments files line = (.error x, c.enter (lineEntries files line)) := by
  rw [applyArguments, lineEntries]
  cases grammar.readKnown line with
  | error x => exact .inr ⟨.exit x, rfl⟩
  | ok p =>
    dsimp only
    rcases applyFile_cases c files p with ⟨entries, hnamed, hfile⟩ | ⟨x, hnamed, hfile⟩
    · rw [hfile, hnamed, Option.getD_some]
      dsimp only
      rcases applyDisabled_cases (c.enter entries) p with ⟨hoff, hfeatures⟩ | ⟨x, hoff⟩
      · rw [hoff]
        dsimp only
        rw [applyArity_eq, ← overriding_append]
        exact .inl ⟨p, _, rfl, rfl, rfl, hfeatures⟩
      · exact .inr ⟨x, by rw [hoff]⟩
    · exact .inr ⟨x, by rw [hfile, hnamed]; rfl⟩

/-! ## Steps -/

/-- What is done to a configuration.  A step that looks at files brings those that it sees. -/
inductive Step where
  | load (files : Files) (path : String)
  | loadDefaults (files : Files)
  | arguments (files : Files) (line : List String)
  /-- Loads the default file and applies a command line, if there is one. -/
  | start (files : Files) (line : Option (List String))
  | set (key : String) (value : Setting)
  | reset

/-- The path of the file that is loaded if it exists. -/
def defaultPath (files : Files) : String := Files.written (files.directory ++ [defaultFile])

namespace Step

/-- Whether a step fails, and what it leaves in both cases. -/
def perform (c : Config) : Step → Except ConfigError Unit × Config
  | .load files path => match c.loadFile files path with
    | .ok (_, c) => (.ok (), c)
    | .error x => (.error x, c)
  | .loadDefaults files => match c.loadDefaults files with
    | .ok c => (.ok (), c)
    | .error x => (.error x, c)
  | .arguments files line => c.applyArguments files line
  | .start files line => c.start files line
  | .set key value => (.ok (), c.set key value)
  | .reset => (.ok (), .initial)

/-- What a step enters below the overrides, also if it fails afterwards. -/
def entries : Step → Settings
  | .load files path => (files.settings? (Files.shortPath path)).getD []
  | .loadDefaults files => (files.settings? (defaultPath files)).getD []
  | .arguments files line => lineEntries files line
  -- a broken default file ends the step before the command line is looked at
  | .start files line => match files.settings? (defaultPath files) with
    | some entries => entries ++ (line.map (lineEntries files)).getD []
    | none => []
  | .set key value => [(key, value)]
  | .reset => []

/-- The command line of a step. -/
def line? : Step → Option (List String)
  | .arguments _ line => some line
  | .start _ line => line
  | _ => none

/-- What the command line of a step says, if the step succeeds. -/
def accepted? (c : Config) (s : Step) : Option Parsed :=
  match (s.perform c).1 with
  | .ok _ => s.line?.bind fun line => (grammar.readKnown line).toOption
  | .error _ => none

/-- The features that a step switches off. -/
def disabled (c : Config) (s : Step) : List Feature :=
  ((s.accepted? c).map switchedOff).getD []

/-- What a step overrides.  The features in force are those that its files leave on. -/
def overrides (c : Config) (s : Step) : Settings :=
  match s.accepted? c with
  | some p => (c.enter s.entries).featureOverride p ++ arityOverride p
  | none => []

theorem loadDefaults_cases (c : Config) (files : Files) :
    (∃ entries, files.settings? (defaultPath files) = some entries ∧
      c.loadDefaults files = .ok (c.enter entries)) ∨
    ∃ x, files.settings? (defaultPath files) = none ∧ c.loadDefaults files = .error x := by
  rw [Config.loadDefaults, ← defaultPath]
  rcases load_cases c files (defaultPath files) with
    ⟨entries, found, hfile, hload⟩ | ⟨x, hfile, hload⟩
  · exact .inl ⟨entries, hfile, by rw [hload]; rfl⟩
  · exact .inr ⟨x, hfile, by rw [hload]; rfl⟩

/-- **A step enters, and then overrides if it has a command line that is accepted**, unless it drops
everything. -/
theorem perform_cases (c : Config) {s : Step} (hs : s ≠ .reset) :
    (∃ p, s.accepted? c = some p ∧ (c.enter s.entries).Accepts p (s.perform c).2) ∨
      (s.accepted? c = none ∧ (s.perform c).2 = c.enter s.entries) := by
  cases s with
  | load files path =>
    refine .inr ?_
    rw [accepted?, perform, entries, loadFile]
    rcases load_cases c files (Files.shortPath path) with
      ⟨entries, found, hfile, hload⟩ | ⟨x, hfile, hload⟩
    · rw [hload, hfile]
      exact ⟨rfl, rfl⟩
    · rw [hload, hfile]
      exact ⟨rfl, rfl⟩
  | loadDefaults files =>
    refine .inr ?_
    rw [accepted?, perform, entries]
    rcases loadDefaults_cases c files with ⟨entries, hfile, hload⟩ | ⟨x, hfile, hload⟩
    · rw [hload, hfile]
      exact ⟨rfl, rfl⟩
    · rw [hload, hfile]
      exact ⟨rfl, rfl⟩
  | arguments files line =>
    rw [accepted?, perform, entries, line?]
    rcases applyArguments_cases c files line with ⟨p, after, hp, heq, hafter⟩ | ⟨x, heq⟩
    · rw [heq, Option.bind_some, hp]
      exact .inl ⟨p, rfl, hafter⟩
    · rw [heq]
      exact .inr ⟨rfl, rfl⟩
  | start files line =>
    rw [accepted?, perform, entries, line?, Config.start]
    rcases loadDefaults_cases c files with ⟨entries, hfile, hload⟩ | ⟨x, hfile, hload⟩
    · rw [hload, hfile]
      cases line with
      | none =>
        refine .inr ⟨rfl, ?_⟩
        dsimp only [Option.map_none, Option.getD_none]
        rw [List.append_nil]
      | some line =>
        dsimp only [Option.map_some, Option.getD_some]
        rw [enter_append]
        rcases applyArguments_cases (c.enter entries) files line with
          ⟨p, after, hp, heq, hafter⟩ | ⟨x, heq⟩
        · rw [heq, Option.bind_some, hp]
          exact .inl ⟨p, rfl, hafter⟩
        · rw [heq]
          exact .inr ⟨rfl, rfl⟩
    · rw [hload, hfile]
      exact .inr ⟨rfl, rfl⟩
  | set key value => exact .inr ⟨rfl, rfl⟩
  | reset => exact absurd rfl hs

theorem state_perform (c : Config) {s : Step} (hs : s ≠ .reset) :
    (s.perform c).2 = (c.enter s.entries).overriding (s.overrides c) := by
  rw [overrides]
  rcases perform_cases c hs with ⟨p, hp, hafter⟩ | ⟨hp, hafter⟩
  · rw [hp, hafter.eq]
  · rw [hp, hafter, overriding_nil]

theorem last?_arityOverride (p : Parsed) : (arityOverride p).last? featuresKey = none := by
  rw [arityOverride]
  split
  · exact (Settings.last?_singleton _ _ _).trans (if_neg (by decide))
  · rfl

/-- **A step overrides the features just if it switches some off**, and then with those that its
files leave on but the ones that it switches off. -/
theorem last?_overrides (c : Config) {s : Step} (hs : s ≠ .reset) :
    (s.disabled c = [] ∧ (s.overrides c).last? featuresKey = none) ∨
      (s.disabled c ≠ [] ∧ ∃ fs, (c.enter s.entries).features = .ok fs ∧
        (s.overrides c).last? featuresKey =
          some (.datum (fs.without (s.disabled c)).toDatum)) := by
  rw [disabled, overrides]
  rcases perform_cases c hs with ⟨p, hp, hafter⟩ | ⟨hp, hafter⟩
  · rw [hp, Option.map_some, Option.getD_some]
    dsimp only
    rw [Settings.last?_append, last?_arityOverride, Option.none_or, featureOverride]
    cases hoff : switchedOff p with
    | nil =>
      refine .inl ⟨rfl, ?_⟩
      cases (c.enter s.entries).features <;> rfl
    | cons f off =>
      obtain ⟨fs, hfs⟩ := hafter.features (by rw [hoff]; exact List.cons_ne_nil f off)
      refine .inr ⟨List.cons_ne_nil f off, fs, hfs, ?_⟩
      rw [hfs]
      exact (Settings.last?_singleton _ _ _).trans (if_pos rfl)
  · rw [hp]
    exact .inl ⟨rfl, rfl⟩

/-- Whether a step drops everything. -/
def isReset : Step → Bool
  | .reset => true
  | _ => false

end Step

/-! ## Runs -/

/-- The configuration after steps in order, whether they succeed or fail. -/
def after (c : Config) (steps : List Step) : Config := steps.foldl (fun c s => (s.perform c).2) c

/-- The steps of a run, each with the configuration in which it is performed. -/
def trace (c : Config) : List Step → List (Step × Config)
  | [] => []
  | s :: rest => (s, c) :: trace (s.perform c).2 rest

/-- The steps of a run since the last reset. -/
def period (c : Config) (steps : List Step) : List (Step × Config) :=
  (c.trace steps).rtakeWhile fun p => !p.1.isReset

/-- All that steps enter, in order. -/
def entriesOf (run : List (Step × Config)) : Settings := run.flatMap fun p => p.1.entries

/-- All that steps override, in order. -/
def overridesOf (run : List (Step × Config)) : Settings := run.flatMap fun p => p.1.overrides p.2

/-- All features that steps switch off. -/
def disabledOf (run : List (Step × Config)) : List Feature := run.flatMap fun p => p.1.disabled p.2

theorem after_concat (c : Config) (steps : List Step) (s : Step) :
    c.after (steps ++ [s]) = (s.perform (c.after steps)).2 := by
  rw [after, List.foldl_append]
  rfl

theorem trace_concat (c : Config) (steps : List Step) (s : Step) :
    c.trace (steps ++ [s]) = c.trace steps ++ [(s, c.after steps)] := by
  induction steps generalizing c with
  | nil => rfl
  | cons first rest ih => rw [List.cons_append, trace, ih, trace, List.cons_append]; rfl

theorem period_concat (c : Config) (steps : List Step) {s : Step} (hs : s.isReset = false) :
    c.period (steps ++ [s]) = c.period steps ++ [(s, c.after steps)] := by
  rw [period, trace_concat, List.rtakeWhile_concat_pos]
  · rfl
  · simp [hs]

theorem period_concat_reset (c : Config) (steps : List Step) :
    c.period (steps ++ [.reset]) = [] := by
  rw [period, trace_concat, List.rtakeWhile_concat_neg]
  simp [Step.isReset]

/-- A property that holds at the start and after a reset, and that every other step keeps, holds
after every run. -/
theorem after_induction {P : List (Step × Config) → Config → Prop} (hinitial : P [] .initial)
    (hstep : ∀ run c s, s ≠ .reset → P run c →
      P (run ++ [(s, c)]) ((c.enter s.entries).overriding (s.overrides c)))
    (steps : List Step) : P (initial.period steps) (initial.after steps) := by
  induction steps using List.reverseRecOn with
  | nil => exact hinitial
  | append_singleton steps s ih =>
    rw [after_concat]
    cases hs : s.isReset with
    | true =>
      obtain rfl : s = .reset := by
        cases s with
        | reset => rfl
        | _ => exact absurd hs Bool.false_ne_true
      rw [period_concat_reset]
      exact hinitial
    | false =>
      have hne : s ≠ .reset := by
        rintro rfl
        exact absurd hs.symm Bool.false_ne_true
      rw [period_concat _ _ hs, Step.state_perform _ hne]
      exact hstep _ _ s hne ih

/-! ## The precedence -/

theorem entriesOf_concat (run : List (Step × Config)) (p : Step × Config) :
    entriesOf (run ++ [p]) = entriesOf run ++ p.1.entries := by
  rw [entriesOf, List.flatMap_append, List.flatMap_singleton, entriesOf]

theorem overridesOf_concat (run : List (Step × Config)) (p : Step × Config) :
    overridesOf (run ++ [p]) = overridesOf run ++ p.1.overrides p.2 := by
  rw [overridesOf, List.flatMap_append, List.flatMap_singleton, overridesOf]

theorem disabledOf_concat (run : List (Step × Config)) (p : Step × Config) :
    disabledOf (run ++ [p]) = disabledOf run ++ p.1.disabled p.2 := by
  rw [disabledOf, List.flatMap_append, List.flatMap_singleton, disabledOf]

/-- Both layers hold what has been written into them since the last reset. -/
structure Layered (run : List (Step × Config)) (c : Config) : Prop where
  settings : ∀ key, c.settings.get? key = ((entriesOf run).last? key).or (defaults.get? key)
  overrides : ∀ key, c.overrides.get? key = (overridesOf run).last? key

/-- Steps write behind what has been written before. -/
theorem Layered.concat {run : List (Step × Config)} {c : Config} (h : Layered run c) (s : Step) :
    Layered (run ++ [(s, c)]) ((c.enter s.entries).overriding (s.overrides c)) where
  settings key := by
    rw [entriesOf_concat, Settings.last?_append, Option.or_assoc, ← h.settings]
    exact Settings.get?_putAll _ _ _
  overrides key := by
    rw [overridesOf_concat, Settings.last?_append, ← h.overrides]
    exact Settings.get?_putAll _ _ _

theorem features_of_override {fs : Features} (h : c.overrides.get? featuresKey = some (.datum fs.toDatum)) :
    c.features = .ok fs := by
  rw [features, get?, h, Option.some_or, Option.getD_some, Setting.toFeatures,
    Features.ofDatum_toDatum]

theorem get?_overriding (c : Config) (entries : Settings) (key : String) :
    (c.overriding entries).overrides.get? key = (entries.last? key).or (c.overrides.get? key) :=
  Settings.get?_putAll _ _ _

end Config
end ScriptHost
