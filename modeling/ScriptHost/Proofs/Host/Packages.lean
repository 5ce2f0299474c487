import ScriptHost.Proofs.Host.Building
import ScriptHost.Proofs.Host.Sealing
import ScriptHost.Proofs.Table.Replay

/-!
# Registering a package and merging its table

What a package registers can be brought into a table in two ways: its registrations are made once
more, or the table that was filled when the package was built is merged.  The first replays a list
of registrations with all their collisions, the second copies a table in which these are settled and
the overloads of a name stand together.  Both lead to the same table, and doing either once more
changes nothing (`reproduces_package`).

That the two lists of functions leave the same table is a fact about `Table.Alike`.  What there is
to say of a host besides is that the lists are what they are.

* `Entry.toNative_rehomed`: a registration makes the same function each time, but for the engine
  that calls of its body go through.
* `Act.enterAll_eq_ok_iff`: making registrations is making their functions and registering these.
* `Stocked`, `stocked_of_builds`: a package that has been built has a table that holds what is left
  of the functions of its registrations; `Stocked.after`: and so it is from then on.
* `Stocked.enters`: either way enters functions into the table, and they are alike.
-/

namespace ScriptHost

/-! ## The same function for another engine -/

/-- The function with another engine for the calls of its body. -/
def Native.rehomed (home : Option EngineId) (f : Native) : Native := { f with home := home }

theorem Native.key_rehomed (home : Option EngineId) (f : Native) : (f.rehomed home).key = f.key :=
  rfl

theorem ShapeRequest.params_home (r : ShapeRequest) (home : Option EngineId)
    (hints : List (String × TypeHint)) (i : Nat) (ps : List HostParameter) :
    ShapeRequest.params { r with home := home } hints i ps = r.params hints i ps := by
  induction ps generalizing i with
  | nil => rfl
  | cons p rest ih =>
    rw [params, params, ih]
    rfl

theorem Native.ofHost_rehomed (r : ShapeRequest) (home : Option EngineId) :
    Native.ofHost { r with home := home } = Native.rehomed home <$> Native.ofHost r := by
  obtain ⟨name, callable, types, style, fallible, receiver, limit, old⟩ := r
  cases callable with
  | other d => rfl
  | function f =>
    have hparams := ShapeRequest.params_home
      ⟨name, .function f, types, style, fallible, receiver, limit, old⟩ home
    simp only [Native.ofHost, hparams, map_bind]
    rfl

theorem Native.withArity_rehomed (f : Native) (home : Option EngineId) (n : Nat)
    (e : Nat → Nat → ShapeError) :
    (f.rehomed home).withArity n e = Native.rehomed home <$> f.withArity n e := by
  have harity : (f.rehomed home).arity = f.arity := rfl
  rw [withArity, withArity, harity]
  by_cases h : f.arity = n
  · rw [if_pos h, if_pos h]
    rfl
  · rw [if_neg h, if_neg h]
    rfl

/-- **A registration makes the same function for every engine**, or for none. -/
theorem Entry.toNative_rehomed (x : Entry) (limit : Except ConvertError Int)
    (home home' : Option EngineId) :
    x.toNative limit home' = Native.rehomed home' <$> x.toNative limit home := by
  rw [toNative, toNative]
  cases x.form with
  | free style fallible receiver =>
    exact Native.ofHost_rehomed
      ⟨x.name, x.callable, givenTypes x.types, style, fallible, receiver, limit, home⟩ home'
  | fixed arity style =>
    have hmade := Native.ofHost_rehomed
      ⟨x.name, x.callable, fixedTypes arity x.types, some style, true, none, limit, home⟩ home'
    simp only [hmade, map_bind, bind_map_left, Native.withArity_rehomed]

/-- The functions are made of the registrations. -/
def Entry.MakeAll (limit : Except ConvertError Int) (home : Option EngineId) (xs : List Entry)
    (fs : List Native) : Prop :=
  List.Forall₂ (fun x f => x.toNative limit home = .ok f) xs fs

theorem Entry.MakeAll.rehomed {limit : Except ConvertError Int} {home : Option EngineId}
    {xs : List Entry} {fs : List Native} (h : Entry.MakeAll limit home xs fs)
    (home' : Option EngineId) : Entry.MakeAll limit home' xs (fs.map (Native.rehomed home')) := by
  refine List.forall₂_map_right_iff.mpr (h.imp fun x f hf => ?_)
  rw [x.toNative_rehomed limit home home', hf]
  rfl

/-! ## Registrations of a package -/

namespace Act

variable {s s' : Host} {t : TableId} {home : Option EngineId}

theorem enters_merge (hopen : (s.table t).frozen = false) (u : TableId) :
    Enters (merge t u) s t (s.table u).functions :=
  enters_registerAll hopen (s.table u).functions

theorem enter_eq_ok_iff {x : Entry} {f : Native} :
    enter t home x s = (.ok f, s') ↔
      x.toNative s.config.maxArity home = .ok f ∧ register t f s = (.ok (), s') := by
  rw [enter, ask_bind_apply, bind_eq_ok_iff]
  constructor
  · rintro ⟨g, s₁, hlift, hrest⟩
    obtain ⟨_, s₂, hregister, hanswer⟩ := bind_eq_ok_iff.mp hrest
    have hmade : (x.toNative s.config.maxArity home, s) = (.ok g, s₁) := hlift
    have hend : ((Except.ok g, s₂) : Except Failure Native × Host) = (.ok f, s') := hanswer
    obtain ⟨hg, rfl⟩ := Prod.mk.inj hmade
    obtain ⟨hf, rfl⟩ := Prod.mk.inj hend
    obtain rfl := Except.ok.inj hf
    exact ⟨hg, hregister⟩
  · rintro ⟨hmade, hregister⟩
    exact ⟨f, s, congrArg (·, s) hmade, bind_eq_ok_iff.mpr ⟨(), s', hregister, rfl⟩⟩

/-- Registrations are made in order exactly by making the functions and registering these. -/
theorem enterAll_eq_ok_iff (hopen : (s.table t).frozen = false) {xs : List Entry} :
    enterAll t home xs s = (.ok (), s') ↔
      ∃ fs, Entry.MakeAll s.config.maxArity home xs fs ∧ registerAll t fs s = (.ok (), s') := by
  induction xs generalizing s with
  | nil =>
    constructor
    · exact fun h => ⟨[], .nil, h⟩
    · rintro ⟨fs, hmade, h⟩
      obtain rfl := List.forall₂_nil_left_iff.mp hmade
      exact h
  | cons x rest ih =>
    rw [enterAll, bind_eq_ok_iff]
    constructor
    · rintro ⟨f, s₁, hfirst, hrest⟩
      obtain ⟨hmade, hregister⟩ := enter_eq_ok_iff.mp hfirst
      obtain ⟨s₂, hok, hopen₁, -, hconfig, -⟩ := register_ok hopen f
      obtain rfl : s₂ = s₁ := (Prod.mk.inj (hok.symm.trans hregister)).2
      obtain ⟨fs, hmades, hall⟩ := (ih hopen₁).mp hrest
      rw [hconfig] at hmades
      exact ⟨f :: fs, .cons hmade hmades, bind_eq_ok_iff.mpr ⟨(), s₂, hregister, hall⟩⟩
    · rintro ⟨fs, hmade, h⟩
      obtain ⟨f, gs, hf, hgs, rfl⟩ := List.forall₂_cons_left_iff.mp hmade
      obtain ⟨_, s₁, hregister, hall⟩ := bind_eq_ok_iff.mp h
      obtain ⟨s₂, hok, hopen₁, -, hconfig, -⟩ := register_ok hopen f
      obtain rfl : s₂ = s₁ := (Prod.mk.inj (hok.symm.trans hregister)).2
      refine ⟨f, s₂, enter_eq_ok_iff.mpr ⟨hf, hregister⟩, (ih hopen₁).mpr ⟨gs, ?_, hall⟩⟩
      rw [hconfig]
      exact hgs

theorem enters_enterAll (hopen : (s.table t).frozen = false) {xs : List Entry} {fs : List Native}
    (hmade : Entry.MakeAll s.config.maxArity home xs fs) : Enters (enterAll t home xs) s t fs := by
  obtain ⟨log, hall⟩ := enters_registerAll hopen fs
  exact ⟨log, (enterAll_eq_ok_iff hopen).mpr ⟨fs, hmade, hall⟩⟩

end Act

/-! ## What building a package leaves -/

/-- A package is there, its registrations make these functions under the limit on parameters, and
its table, which is closed, holds what is left of them. -/
structure Host.Stocked (s : Host) (limit : Except ConvertError Int) (id : PackageId)
    (package : Package) (home : Option EngineId) (natives : List Native) : Prop where
  built : s.packages[id]? = some package
  made : Entry.MakeAll limit home (package.definition.entriesFor package.features) natives
  closed : (s.table package.table).frozen = true
  filled : (s.table package.table).functions = Table.entered natives

namespace Act

variable {s s' : Host} {t : TableId} {home : Option EngineId}

theorem featuresOr_eq_ok {given : Option Features} {fs : Features}
    (h : featuresOr given s = (.ok fs, s')) : s' = s ∧ s.featuresFor given = some fs := by
  rcases featuresOr_cases given s with ⟨gs, hgs, heq⟩ | ⟨x, -, heq⟩
  · obtain ⟨hok, hs⟩ := Prod.mk.inj (heq.symm.trans h)
    exact ⟨hs.symm, Except.ok.inj hok ▸ hgs⟩
  · exact absurd (Prod.mk.inj (heq.symm.trans h)).1 nofun

/-- A new table that registrations are made in holds what is left of their functions. -/
theorem enterAll_newTable {name : Option String} {xs : List Entry} {s₁ : Host}
    (hnew : newTable name s = (.ok t, s₁)) (hentered : enterAll t home xs s₁ = (.ok (), s')) :
    ∃ natives log, Entry.MakeAll s.config.maxArity home xs natives ∧ t = s.tables.size ∧
      s' = { s with tables := s.tables.push ⟨name, Table.entered natives, false⟩, log := log } := by
  obtain rfl : s.tables.size = t := Except.ok.inj (Prod.mk.inj hnew).1
  obtain rfl : { s with tables := s.tables.push (.empty name) } = s₁ := (Prod.mk.inj hnew).2
  have hempty := Host.table_push_self s (.empty name)
  have hopen : (Host.table { s with tables := s.tables.push (.empty name) } s.tables.size).frozen =
      false := by
    rw [hempty]
    rfl
  obtain ⟨natives, hmade, hall⟩ := (enterAll_eq_ok_iff hopen).mp hentered
  obtain ⟨log, hfilled⟩ := enters_registerAll hopen natives
  refine ⟨natives, log, hmade, rfl, ?_⟩
  rw [← (Prod.mk.inj (hfilled.symm.trans hall)).2, Host.fill, hempty, Host.setTable_push]
  rfl

/-- A table that has just been added is closed. -/
theorem freeze_push (s : Host) (new : Table) :
    freeze s.tables.size { s with tables := s.tables.push new } =
      (.ok (), { s with tables := s.tables.push new.freeze }) := by
  rw [← Host.setTable_push s new new.freeze, freeze, change, Host.table_push_self, Host.setTable]

/-- **Building a package** adds a closed table with what is left of the functions of its
registrations, and the package; it logs what it likes and changes nothing else. -/
theorem eq_of_buildPackage {p : PackageDef} {given : Option Features} {id : PackageId}
    (h : buildPackage p given home s = (.ok id, s')) :
    ∃ fs natives log, s.featuresFor given = some fs ∧
      Entry.MakeAll s.config.maxArity home (p.entriesFor fs) natives ∧ id = s.packages.size ∧
        s' = { s with
          tables := s.tables.push ⟨some p.name, Table.entered natives, true⟩
          packages := s.packages.push ⟨p, fs, s.tables.size⟩
          log := log } := by
  obtain ⟨fs, s₁, hfeatures, hfresh⟩ := bind_eq_ok_iff.mp h
  obtain ⟨rfl, hfs⟩ := featuresOr_eq_ok hfeatures
  obtain ⟨t, s₂, hnew, hfilling⟩ := bind_eq_ok_iff.mp hfresh
  obtain ⟨_, s₃, hentered, hclosing⟩ := bind_eq_ok_iff.mp hfilling
  obtain ⟨_, s₄, hfrozen, hrest⟩ := bind_eq_ok_iff.mp hclosing
  obtain ⟨natives, log, hmade, rfl, rfl⟩ := enterAll_newTable hnew hentered
  have hs₄ : { s₁ with
      tables := s₁.tables.push ⟨some p.name, Table.entered natives, true⟩
      log := log } = s₄ :=
    (Prod.mk.inj ((freeze_push { s₁ with log := log } _).symm.trans hfrozen)).2
  rw [← hs₄] at hrest
  obtain ⟨hid, hs'⟩ := Prod.mk.inj hrest
  exact ⟨fs, natives, _, hfs, hmade, (Except.ok.inj hid).symm, hs'.symm⟩

/-- An engine that has just been added loads a table. -/
theorem loadTable_push (s : Host) (new : Engine) (t : TableId) :
    ∃ log, loadTable s.engines.size t { s with engines := s.engines.push new } =
      (.ok (), { s with
        engines := s.engines.push { new with loaded := new.loaded ++ [t] }
        log := log }) := by
  have hengine (log : List Record) : Host.engine { s with
      engines := s.engines.push new
      log := log } s.engines.size = new := by
    rw [Host.engine, Array.getElem?_push_size, Option.getD_some]
  refine ⟨(loadTable s.engines.size t { s with engines := s.engines.push new }).2.log, ?_⟩
  rw [loadTable, ask_bind_apply, bind_apply]
  simp only [Act.log, addTable, change, hengine, Host.setIfInBounds_push]

/-- **An engine that is made with the string package** has a table of its own, which is empty, and
has loaded the table of the package, which has been built for it. -/
theorem eq_of_newEngine {given : Option Features} {e : EngineId}
    (h : newEngine given true s = (.ok e, s')) :
    ∃ fs natives log, s.featuresFor given = some fs ∧
      Entry.MakeAll s.config.maxArity none (Strings.package.entriesFor fs) natives ∧
        e = s.engines.size ∧
        s' = { s with
          tables := (s.tables.push (.empty (some ownTableName))).push
            ⟨some Strings.package.name, Table.entered natives, true⟩
          engines := s.engines.push ⟨fs, s.tables.size, [s.tables.size + 1], [], false⟩
          packages := s.packages.push ⟨Strings.package, fs, s.tables.size + 1⟩
          log := log } := by
  obtain ⟨fs, s₁, hfeatures, hfresh⟩ := bind_eq_ok_iff.mp h
  obtain ⟨rfl, hfs⟩ := featuresOr_eq_ok hfeatures
  obtain ⟨own, s₂, hnew, hmaking⟩ := bind_eq_ok_iff.mp hfresh
  obtain ⟨d, s₃, hasked, hpushing⟩ := bind_eq_ok_iff.mp hmaking
  obtain ⟨_, s₄, hpushed, hbuilding⟩ := bind_eq_ok_iff.mp hpushing
  obtain rfl : s₁.tables.size = own := Except.ok.inj (Prod.mk.inj hnew).1
  obtain rfl : { s₁ with tables := s₁.tables.push (.empty (some ownTableName)) } = s₂ :=
    (Prod.mk.inj hnew).2
  obtain rfl : s₁.engines.size = d := Except.ok.inj (Prod.mk.inj hasked).1
  obtain rfl := (Prod.mk.inj hasked).2
  obtain rfl := (Prod.mk.inj hpushed).2
  -- the package is built in a state with one more table and one more engine
  rw [if_pos rfl] at hbuilding
  obtain ⟨id, s₅, hbuilt, hloading⟩ := bind_eq_ok_iff.mp hbuilding
  obtain ⟨gs, natives, log, hgs, hmade, rfl, rfl⟩ := eq_of_buildPackage hbuilt
  obtain rfl : fs = gs := Option.some.inj hgs
  -- and loading its table changes the engine only
  rw [ask_bind_apply] at hloading
  have hpackage : (s₁.packages.push ⟨Strings.package, fs, s₁.tables.size + 1⟩)[s₁.packages.size]? =
      some ⟨Strings.package, fs, s₁.tables.size + 1⟩ := Array.getElem?_push_size
  simp only [Array.size_push, hpackage] at hloading
  obtain ⟨log, hloaded⟩ := loadTable_push { s₁ with
    tables := (s₁.tables.push (.empty (some ownTableName))).push
      ⟨some Strings.package.name, Table.entered natives, true⟩
    packages := s₁.packages.push ⟨Strings.package, fs, s₁.tables.size + 1⟩
    log := log } ⟨fs, s₁.tables.size, [], [], false⟩ (s₁.tables.size + 1)
  obtain ⟨_, s₆, hload, hend⟩ := bind_eq_ok_iff.mp hloading
  obtain rfl := (Prod.mk.inj (hloaded.symm.trans hload)).2
  obtain ⟨he, hs'⟩ := Prod.mk.inj hend
  exact ⟨fs, natives, log, hfs, hmade, (Except.ok.inj he).symm, hs'.symm⟩

end Act

/-- The package that a command builds, by itself or for a new engine, and the engine that calls of
its functions go through. -/
def Command.builds : Command → Option (PackageDef × Option EngineId)
  | .buildPackage p _ home => some (p, home)
  | .newEngine _ true => some (Strings.package, none)
  | _ => none

/-! ## Both ways -/

/-- The states differ in their logs only. -/
def Host.OnlyLog (s s' : Host) : Prop := s' = { s with log := s'.log }

/-- The table without the engines that calls of its functions go through. -/
def Table.detached (t : Table) : Table :=
  { t with functions := t.functions.map (Native.rehomed none) }

namespace Host

variable {s : Host} {limit : Except ConvertError Int} {id : PackageId} {package : Package}
  {home : Option EngineId} {natives fs gs : List Native} {t : TableId} {c d : Command}

/-- A closed table that has just been added with a package. -/
theorem stocked_of_push {p : PackageDef} {fs : Features} {ts : Array Table} {ps : Array Package}
    (hmade : Entry.MakeAll limit home (p.entriesFor fs) natives)
    (htables : s.tables = ts.push ⟨some p.name, Table.entered natives, true⟩)
    (hpackages : s.packages = ps.push ⟨p, fs, ts.size⟩) :
    s.Stocked limit ps.size ⟨p, fs, ts.size⟩ home natives := by
  have htable : s.table ts.size = ⟨some p.name, Table.entered natives, true⟩ := by
    rw [table, htables, Array.getElem?_push_size, Option.getD_some]
  refine ⟨?_, hmade, ?_, ?_⟩
  · rw [hpackages]
    exact Array.getElem?_push_size
  · rw [htable]
  · rw [htable]

theorem stocked_of_builds {p : PackageDef} (hc : c.builds = some (p, home))
    (h : (c.perform s).1 = .ok ()) :
    ∃ package natives, package.definition = p ∧
      (c.apply s).Stocked s.config.maxArity s.packages.size package home natives := by
  have hperform : c.perform s = (.ok (), c.apply s) := Prod.ext h rfl
  unfold Command.builds at hc
  split at hc
  · obtain ⟨rfl, rfl⟩ := Prod.mk.inj (Option.some.inj hc)
    obtain ⟨id, s', hbuilt, hend⟩ := Act.bind_eq_ok_iff.mp hperform
    obtain ⟨fs, natives, log, -, hmade, -, rfl⟩ := Act.eq_of_buildPackage hbuilt
    rw [← (Prod.mk.inj hend).2]
    exact ⟨_, natives, rfl, stocked_of_push hmade rfl rfl⟩
  · obtain ⟨rfl, rfl⟩ := Prod.mk.inj (Option.some.inj hc)
    obtain ⟨e, s', hnew, hend⟩ := Act.bind_eq_ok_iff.mp hperform
    obtain ⟨fs, natives, log, -, hmade, -, rfl⟩ := Act.eq_of_newEngine hnew
    rw [← (Prod.mk.inj hend).2]
    exact ⟨_, natives, rfl, stocked_of_push hmade rfl (by rw [Array.size_push])⟩
  · exact absurd hc nofun

/-- A package keeps its table, and the table what it holds. -/
theorem Stocked.after (h : s.Stocked limit id package home natives) (cs : List Command) :
    (s.after cs).Stocked limit id package home natives := by
  have hkept := table_after_of_frozen h.closed cs
  refine ⟨after_along (along_packages id package) (fun _ _ h => h) s cs h.built, h.made, ?_, ?_⟩
  · rw [hkept]
    exact h.closed
  · rw [hkept]
    exact h.filled

/-- Filling an open table leaves the package as it is. -/
theorem Stocked.fill (h : s.Stocked limit id package home natives)
    (hopen : (s.table t).frozen = false) (fs : List Native) (log : List Record) :
    Stocked { s.fill t fs with log := log } limit id package home natives := by
  have htable : (s.fill t fs).table package.table = s.table package.table := by
    rw [Host.fill, table_setTable, if_neg]
    rintro ⟨rfl, -⟩
    exact Bool.false_ne_true (hopen.symm.trans h.closed)
  refine ⟨h.built, h.made, ?_, ?_⟩
  · show ((s.fill t fs).table package.table).frozen = true
    rw [htable]
    exact h.closed
  · show ((s.fill t fs).table package.table).functions = Table.entered natives
    rw [htable]
    exact h.filled

/-- Registering the package once more replays its functions. -/
theorem enters_populate (hbuilt : s.packages[id]? = some package)
    (hmade : Entry.MakeAll s.config.maxArity home
      (package.definition.entriesFor package.features) natives)
    (hopen : (s.table t).frozen = false) :
    Act.Enters (Command.populate id t home).perform s t natives := by
  obtain ⟨log, hall⟩ := Act.enters_enterAll hopen hmade
  refine ⟨log, ?_⟩
  rw [Command.perform, Act.ask_bind_apply, hbuilt]
  exact hall

/-- The two ways to bring what a package registers into a table: to register it once more, and to
merge the table of the package. -/
def ways (id : PackageId) (package : Package) (t : TableId) (home : Option EngineId) :
    List Command :=
  [.populate id t home, .merge t package.table]

/-- Either way enters functions, and those that it enters are alike. -/
theorem Stocked.enters (h : s.Stocked s.config.maxArity id package home natives)
    (hopen : (s.table t).frozen = false) (hc : c ∈ ways id package t home) :
    ∃ fs, Table.Alike fs natives ∧ Act.Enters c.perform s t fs := by
  rw [ways, List.mem_cons, List.mem_singleton] at hc
  rcases hc with rfl | rfl
  · exact ⟨natives, .refl natives, enters_populate h.built h.made hopen⟩
  · refine ⟨Table.entered natives, Table.alike_entered natives, ?_⟩
    have hmerge := Act.enters_merge hopen package.table
    rw [h.filled] at hmerge
    exact hmerge

/-- Entering functions that leave the same table leaves the same state. -/
theorem onlyLog_of_enters (hc : Act.Enters c.perform s t fs) (hd : Act.Enters d.perform s t gs)
    (heq : Table.enteredInto (s.table t).functions fs =
      Table.enteredInto (s.table t).functions gs) : (c.apply s).OnlyLog (d.apply s) := by
  obtain ⟨log, hc⟩ := hc
  obtain ⟨log', hd⟩ := hd
  have hfill : s.fill t fs = s.fill t gs := by rw [fill, fill, heq]
  rw [OnlyLog, Command.apply, Command.apply, hc, hd, hfill]

/-- The commands succeed one after the other, and the second changes nothing more but the log. -/
structure AddsNothing (s : Host) (c d : Command) : Prop where
  first : (c.perform s).1 = .ok ()
  second : (d.perform (c.apply s)).1 = .ok ()
  unchanged : (c.apply s).OnlyLog (d.apply (c.apply s))

theorem addsNothing_of_enters (hc : Act.Enters c.perform s t fs)
    (hd : Act.Enters d.perform (c.apply s) t gs)
    (heq : Table.enteredInto (Table.enteredInto (s.table t).functions fs) gs =
      Table.enteredInto (s.table t).functions fs) : s.AddsNothing c d := by
  obtain ⟨log, hc⟩ := hc
  obtain ⟨log', hd⟩ := hd
  refine ⟨congrArg Prod.fst hc, congrArg Prod.fst hd, ?_⟩
  have hfirst : c.apply s = { s.fill t fs with log := log } := congrArg Prod.snd hc
  have hsecond : d.apply (c.apply s) = { (c.apply s).fill t gs with log := log' } :=
    congrArg Prod.snd hd
  have hfill : (s.fill t fs).fill t gs = s.fill t fs := by
    rw [← fill_append, fill, fill, Table.enteredInto_append, heq]
  rw [OnlyLog, hsecond, hfirst]
  show ({ (s.fill t fs).fill t gs with log := log' } : Host) = _
  rw [hfill]

/-- Bringing what a package registers into an open table, for the same engine as when the package
was built or for another. -/
structure Reproduces (s : Host) (id : PackageId) (package : Package) (t : TableId)
    (home : Option EngineId) : Prop where
  built : s.packages[id]? = some package
  /-- Both ways lead to the same state … -/
  same : ∀ c ∈ ways id package t home, ∀ d ∈ ways id package t home,
    (c.apply s).OnlyLog (d.apply s)
  /-- … and after either of them neither changes anything more. -/
  again : ∀ c ∈ ways id package t home, ∀ d ∈ ways id package t home, s.AddsNothing c d
  /-- Registered for another engine, the functions differ in this engine only. -/
  elsewhere : ∀ home', s.AddsNothing (.populate id t home') (.populate id t home') ∧
    ∀ u, (((Command.populate id t home').apply s).table u).detached =
      (((Command.merge t package.table).apply s).table u).detached

theorem detached_fill
    (heq : (Table.enteredInto (s.table t).functions fs).map (Native.rehomed none) =
      (Table.enteredInto (s.table t).functions gs).map (Native.rehomed none)) (u : TableId) :
    ((s.fill t fs).table u).detached = ((s.fill t gs).table u).detached := by
  rw [fill, fill, table_setTable, table_setTable]
  split
  · rw [Table.detached, Table.detached, heq]
  · rfl

theorem Stocked.reproduces (h : s.Stocked s.config.maxArity id package home natives)
    (hopen : (s.table t).frozen = false) {vs : List Native}
    (hfunctions : (s.table t).functions = Table.entered vs) :
    s.Reproduces id package t home where
  built := h.built
  same := by
    intro c hc d hd
    obtain ⟨fs, hfs, hc⟩ := h.enters hopen hc
    obtain ⟨gs, hgs, hd⟩ := h.enters hopen hd
    refine onlyLog_of_enters hc hd ?_
    rw [hfunctions]
    exact (hfs.trans hgs.symm).enteredInto_eq vs
  again := by
    intro c hc d hd
    obtain ⟨fs, hfs, hc⟩ := h.enters hopen hc
    obtain ⟨log, happly⟩ := hc
    have hstate : c.apply s = { s.fill t fs with log := log } := congrArg Prod.snd happly
    have hstocked : (c.apply s).Stocked (c.apply s).config.maxArity id package home natives := by
      rw [hstate]
      exact h.fill hopen fs log
    have hopen' : ((c.apply s).table t).frozen = false := by
      rw [hstate]
      exact (frozen_fill s t fs).trans hopen
    obtain ⟨gs, hgs, hd⟩ := hstocked.enters hopen' hd
    refine addsNothing_of_enters ⟨log, happly⟩ hd ?_
    rw [hfunctions]
    exact (hfs.trans hgs.symm).enteredInto_again vs
  elsewhere := by
    intro home'
    have hmade := h.made.rehomed home'
    have hfirst := enters_populate h.built hmade hopen
    obtain ⟨log, hpopulate⟩ := hfirst
    obtain ⟨log', hmerge⟩ := Act.enters_merge hopen package.table
    have hpopulated := congrArg Prod.snd hpopulate
    have hmerged : (Command.merge t package.table).apply s =
        { s.fill t (Table.entered natives) with log := log' } := by
      rw [← h.filled]
      exact congrArg Prod.snd hmerge
    have hsecond : Act.Enters (Command.populate id t home').perform
        ((Command.populate id t home').apply s) t (natives.map (Native.rehomed home')) := by
      rw [Command.apply, hpopulated]
      exact enters_populate h.built hmade ((frozen_fill s t _).trans hopen)
    refine ⟨addsNothing_of_enters ⟨log, hpopulate⟩ hsecond ?_, fun u => ?_⟩
    · rw [hfunctions]
      exact (Table.Alike.refl _).enteredInto_again vs
    · rw [Command.apply, hpopulated, hmerged]
      refine detached_fill ?_ u
      -- where a function goes does not depend on the engine
      have hkey := Native.key_rehomed none
      have hnatives : (natives.map (Native.rehomed home')).map (Native.rehomed none) =
          natives.map (Native.rehomed none) := List.map_map
      rw [← Table.enteredInto_map hkey, hnatives, Table.enteredInto_map hkey, hfunctions,
        (Table.alike_entered natives).enteredInto_eq vs]

/-- **Registering a package once more and merging its table do the same.**  A package has been
built, in any state that a host gets into, and whatever has happened then, the limit on parameters
is as it was.  In any table that is open now, whatever it holds, the two ways lead to one and the
same table, and after either of them neither changes anything more. -/
theorem reproduces_package {cs ds : List Command} {c : Command} {p : PackageDef}
    {home : Option EngineId} {t : TableId} (hc : c.builds = some (p, home))
    (hbuilt : (c.perform (Host.initial.after cs)).1 = .ok ())
    (hlimit : (Host.initial.after (cs ++ c :: ds)).config.maxArity =
      (Host.initial.after cs).config.maxArity)
    (hopen : ((Host.initial.after (cs ++ c :: ds)).table t).frozen = false) :
    ∃ package, package.definition = p ∧ (Host.initial.after (cs ++ c :: ds)).Reproduces
      (Host.initial.after cs).packages.size package t home := by
  obtain ⟨package, natives, hdefinition, hstocked⟩ := stocked_of_builds hc hbuilt
  have hlater := hstocked.after ds
  rw [← after_cons, ← after_append, ← hlimit] at hlater
  exact ⟨package, hdefinition, hlater.reproduces hopen (functions_after .initial _ t)⟩

/-- A package whose last registration replaces its first, with those of other keys in between. -/
def collidingPackage : PackageDef :=
  let point := EntryForm.free none true (some (.object "Point"))
  let line := EntryForm.free none true (some (.object "Line"))
  ⟨"Colliding", "", [⟨none, "size", xGetter.callable, [], point⟩,
    ⟨none, "x", xGetter.callable, [], point⟩, ⟨none, "size", xGetter.callable, [], line⟩,
    ⟨none, "size", xSetter.callable, [], point⟩]⟩

/-- A table that has a function under one of the keys already. -/
def library : List Command :=
  [.newTable (some "library"),
   .enter 0 none ⟨none, "x", xSetter.callable, [], .free none true (some (.object "Point"))⟩]

theorem reproduces_colliding :
    ((Command.buildPackage collidingPackage (some .all) none).perform
        (Host.initial.after library)).1 = .ok () ∧
      ((Host.initial.after (library ++
        [.buildPackage collidingPackage (some .all) none, .newEngine none false])).table 0).frozen =
        false ∧
      ∃ package, package.definition = collidingPackage ∧
        (Host.initial.after (library ++ [.buildPackage collidingPackage (some .all) none,
          .newEngine none false])).Reproduces 0 package 0 none := by
  have hsuccess : ∀ x : Except Failure Unit, x.isOk = true → x = .ok () := by
    rintro (x | _) hx
    · exact absurd hx nofun
    · rfl
  have hbuilt : ((Command.buildPackage collidingPackage (some .all) none).perform
      (Host.initial.after library)).1 = .ok () := hsuccess _ (by decide +kernel)
  have hlimit : (Host.initial.after (library ++
      [.buildPackage collidingPackage (some .all) none, .newEngine none false])).config.maxArity =
      (Host.initial.after library).config.maxArity := by decide +kernel
  have hopen : ((Host.initial.after (library ++
      [.buildPackage collidingPackage (some .all) none, .newEngine none false])).table 0).frozen =
      false := by decide +kernel
  exact ⟨hbuilt, hopen, reproduces_package rfl hbuilt hlimit hopen⟩

end Host
end ScriptHost
