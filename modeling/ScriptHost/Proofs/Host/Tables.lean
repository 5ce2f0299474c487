import ScriptHost.Proofs.Host.Building
import ScriptHost.Proofs.Host.History
import ScriptHost.Proofs.Table.Directory
import ScriptHost.Proofs.Table.Replay

/-!
# The tables of a host

Functions get into a table by many ways: registered one by one or copied from another table, by an
engine, a builder or a package.  But each command is for one table at most, and there it is a list
of functions that it offers, in order.  A closed table takes none of them, an open one all.

* `along_closed`, `table_after_of_frozen`: what is closed stays as it is, for good.
* `fill`, `enters_registerAll`: what becomes of a table that takes functions.
* `Command.offers`: what a command offers, and to which table.  Where functions have to be made
  first, those up to the first that cannot be made are offered (`makeable`).
* `serves_apply`: a command does to the functions of the tables what its offer says.
* `registered`, `functions_after`: so a table holds what the registrations of a run leave that
  succeeded.
* `wellKept_after`: a table is a dictionary of dictionaries in the order of these registrations, and
  holds the last function under each key (`Table.WellKept`).
-/

namespace ScriptHost
namespace Host

variable {s : Host} {t : TableId}

/-! ## Closed tables -/

/-- Only a table that exists is closed. -/
theorem lt_of_frozen (h : (s.table t).frozen = true) : t < s.tables.size := by
  by_contra hlt
  rw [table, Array.getElem?_eq_none (Nat.le_of_not_lt hlt)] at h
  exact absurd h Bool.false_ne_true

/-- A new table is none of those that exist. -/
theorem table_push_of_lt (ht : t < s.tables.size) (new : Table) :
    table { s with tables := s.tables.push new } t = s.table t := by
  rw [table, table, Array.getElem?_push, if_neg (Nat.ne_of_lt ht)]

theorem freeze_of_frozen {u : Table} (h : u.frozen = true) : u.freeze = u := by
  rw [Table.freeze, ← h]

/-- **A closed table stays as it is.** -/
theorem along_closed : Along anyBuilder fun s s' =>
    ∀ t, (s.table t).frozen = true → s'.table t = s.table t where
  refl _ _ _ := rfl
  trans h₁ h₂ t ht := (h₂ t ((h₁ t ht).symm ▸ ht)).trans (h₁ t ht)
  aside _ _ _ _ _ _ _ := rfl
  packed _ _ _ _ _ := rfl
  newTable _ _ _ ht := table_push_of_lt (lt_of_frozen ht) _
  entered s u f hopen t ht := by
    rw [table_setTable, if_neg]
    rintro ⟨rfl, -⟩
    exact Bool.false_ne_true (hopen.symm.trans ht)
  frozen s u t ht := by
    rw [table_setTable]
    split
    · rename_i h
      rw [h.1, freeze_of_frozen ht]
    · rfl
  newEngine _ _ _ _ ht := table_push_of_lt (lt_of_frozen ht) _
  loaded _ _ _ _ _ := rfl
  named _ _ _ _ _ _ := rfl
  opened _ _ _ _ _ := rfl
  collected _ _ _ _ _ _ _ _ _ _ _ := rfl

theorem table_after_of_frozen (ht : (s.table t).frozen = true) (cs : List Command) :
    (s.after cs).table t = s.table t :=
  after_along along_closed (fun _ _ _ _ => rfl) s cs t ht

/-! ## Filling a table -/

/-- The state with functions entered into a table. -/
def fill (s : Host) (t : TableId) (fs : List Native) : Host :=
  s.setTable t { s.table t with functions := Table.enteredInto (s.table t).functions fs }

theorem setTable_of_le (ht : s.tables.size ≤ t) (new : Table) : s.setTable t new = s := by
  rw [setTable, Array.setIfInBounds_eq_of_size_le ht]

theorem setTable_setTable (s : Host) (t : TableId) (old new : Table) :
    (s.setTable t old).setTable t new = s.setTable t new := by
  rw [setTable, setTable, setTable, Array.setIfInBounds_setIfInBounds]

theorem setTable_self (s : Host) (t : TableId) : s.setTable t (s.table t) = s := by
  by_cases ht : t < s.tables.size
  · rw [setTable, table, Array.getElem?_eq_getElem ht, Option.getD_some,
      Array.setIfInBounds_def, dif_pos ht, Array.set_getElem_self]
  · exact setTable_of_le (Nat.le_of_not_lt ht) _

theorem table_push_self (s : Host) (new : Table) :
    Host.table { s with tables := s.tables.push new } s.tables.size = new := by
  rw [table, Array.getElem?_push_size, Option.getD_some]

/-- What has just been added is replaced. -/
theorem setIfInBounds_push {α : Type} (xs : Array α) (old new : α) :
    (xs.push old).setIfInBounds xs.size new = xs.push new := by
  simp [← Array.toList_inj]

theorem setTable_push (s : Host) (old new : Table) :
    Host.setTable { s with tables := s.tables.push old } s.tables.size new =
      { s with tables := s.tables.push new } := by
  rw [setTable, setIfInBounds_push]

theorem fill_nil (s : Host) (t : TableId) : s.fill t [] = s := setTable_self s t

theorem fill_append (s : Host) (t : TableId) (fs gs : List Native) :
    s.fill t (fs ++ gs) = (s.fill t fs).fill t gs := by
  by_cases ht : t < s.tables.size
  · rw [fill, fill, fill, table_setTable, if_pos ⟨rfl, ht⟩, setTable_setTable,
      Table.enteredInto_append]
  · have hle := Nat.le_of_not_lt ht
    rw [fill, fill, fill, setTable_of_le hle, setTable_of_le hle, setTable_of_le hle]

theorem frozen_fill (s : Host) (t : TableId) (fs : List Native) :
    ((s.fill t fs).table t).frozen = (s.table t).frozen := by
  rw [fill, table_setTable]
  split <;> rfl

end Host

namespace Act

variable {α : Type} {s s' : Host} {t : TableId}

/-- The operation succeeds, enters the functions into the table, and logs what it likes. -/
def Enters (a : Act Unit) (s : Host) (t : TableId) (fs : List Native) : Prop :=
  ∃ log, a s = (.ok (), { s.fill t fs with log := log })

/-- **An open table takes all functions.** -/
theorem enters_registerAll (hopen : (s.table t).frozen = false) (fs : List Native) :
    Enters (registerAll t fs) s t fs := by
  induction fs generalizing s with
  | nil => exact ⟨s.log, by rw [Host.fill_nil]; rfl⟩
  | cons f rest ih =>
    have hfirst : ∃ log, register t f s = (.ok (), { s.fill t [f] with log := log }) :=
      ⟨_, register_of_open hopen⟩
    obtain ⟨log₁, hfirst⟩ := hfirst
    have hopen₁ : (Host.table { s.fill t [f] with log := log₁ } t).frozen = false :=
      (Host.frozen_fill s t [f]).trans hopen
    obtain ⟨log₂, hrest⟩ := ih hopen₁
    have hfill : s.fill t (f :: rest) = (s.fill t [f]).fill t rest := Host.fill_append s t [f] rest
    refine ⟨log₂, ?_⟩
    rw [registerAll, bind_apply, hfirst, hfill]
    exact hrest

/-- **A closed table takes none.** -/
theorem state_registerAll_of_frozen (hfrozen : (s.table t).frozen = true) (fs : List Native) :
    (registerAll t fs s).2 = s := by
  cases fs with
  | nil => rfl
  | cons f rest => rw [registerAll, bind_apply, register_of_frozen hfrozen]

theorem state_discard (a : Act α) (s : Host) : ((do let _ ← a) s : _ × Host).2 = (a s).2 := by
  rw [bind_apply]
  rcases a s with ⟨_ | _, _⟩ <;> rfl

end Act

/-! ## What commands offer -/

/-- The functions that are made of a list, one after another, up to the first failure. -/
def makeable {α : Type} (make : α → Except Failure Native) : List α → List Native
  | [] => []
  | x :: rest => match make x with
    | .ok f => f :: makeable make rest
    | .error _ => []

namespace Host

/-- The functions that registrations make. -/
def makeEntries (s : Host) (home : Option EngineId) (xs : List Entry) : List Native :=
  makeable (fun x => x.toNative s.config.maxArity home) xs

/-- The functions that members of an engine make. -/
def makeMembers (s : Host) (e : EngineId) (receiver : Option Kind) (ms : List Member) :
    List Native :=
  makeable (fun m => (m.check "register" (s.engine e).features).bind fun _ =>
    m.toNative ⟨s.config.maxArity, some e, receiver⟩) ms

/-- The features that are given, or else those of the configuration, if it has any. -/
def featuresFor (s : Host) (given : Option Features) : Option Features :=
  given.or s.config.features.toOption

end Host

/-- The functions that a command offers to a table. -/
def Command.offers (s : Host) : Command → Option (TableId × List Native)
  | .register t f => some (t, [f])
  | .enter t home x => some (t, s.makeEntries home [x])
  | .merge t u => some (t, (s.table u).functions)
  | .populate id t home => s.packages[id]?.map fun p =>
    (t, s.makeEntries home (p.definition.entriesFor p.features))
  | .buildPackage p given home => (s.featuresFor given).map fun fs =>
    (s.tables.size, s.makeEntries home (p.entriesFor fs))
  -- the own table of the engine is made before that of the package
  | .newEngine given true => (s.featuresFor given).map fun fs =>
    (s.tables.size + 1, s.makeEntries none (Strings.package.entriesFor fs))
  | .registerMembers e receiver ms => some ((s.engine e).own, s.makeMembers e receiver ms)
  | .closeBuilder b => s.builders[b]?.bind fun state =>
    if state.finalized then none else some ((s.engine state.engine).own, state.pending)
  | _ => none

namespace Host

/-- What a table takes of an offer on the way from one state to another: all of it if it is the
table that the offer is for, is open, and is there in the end. -/
def takes (s s' : Host) (offer : Option (TableId × List Native)) (t : TableId) : List Native :=
  match offer with
  | some (u, fs) => if u = t ∧ (s.table t).frozen = false ∧ t < s'.tables.size then fs else []
  | none => []

/-- Every table holds in addition what it takes of the offer. -/
def Serves (s s' : Host) (offer : Option (TableId × List Native)) : Prop :=
  ∀ t, (s'.table t).functions = Table.enteredInto (s.table t).functions (s.takes s' offer t)

variable {s s₁ s₂ s' : Host} {t : TableId} {fs : List Native}

theorem serves_none (h : ∀ t, (s'.table t).functions = (s.table t).functions) :
    s.Serves s' none := h

theorem serves_none_of_tables_eq (h : s'.tables = s.tables) : s.Serves s' none := by
  intro t
  rw [table, table, h]
  rfl

/-- What happens before an offer and after it does not matter if it leaves the functions alone. -/
theorem Serves.between (h : s₁.Serves s₂ (some (t, fs)))
    (hbefore : ∀ u, (s₁.table u).functions = (s.table u).functions)
    (hopen : (s₁.table t).frozen = (s.table t).frozen)
    (hafter : ∀ u, (s'.table u).functions = (s₂.table u).functions)
    (hsize : s'.tables.size = s₂.tables.size) : s.Serves s' (some (t, fs)) := by
  intro u
  have htakes : s₁.takes s₂ (some (t, fs)) u = s.takes s' (some (t, fs)) u := by
    rw [takes, takes, hsize]
    by_cases htu : t = u
    · subst htu
      rw [hopen]
    · rw [if_neg fun h => htu h.1, if_neg fun h => htu h.1]
  rw [hafter, h u, hbefore, htakes]

theorem serves_registerAll (s : Host) (t : TableId) (fs : List Native) :
    s.Serves (Act.registerAll t fs s).2 (some (t, fs)) := by
  intro u
  cases hfrozen : (s.table t).frozen with
  | true =>
    rw [Act.state_registerAll_of_frozen hfrozen, takes, if_neg]
    · rfl
    · rintro ⟨rfl, hopen, -⟩
      exact Bool.false_ne_true (hopen.symm.trans hfrozen)
  | false =>
    obtain ⟨log, hall⟩ := Act.enters_registerAll hfrozen fs
    have hstate := congrArg Prod.snd hall
    have hsize : (s.fill t fs).tables.size = s.tables.size := Array.size_setIfInBounds
    rw [hstate, takes]
    show ((s.fill t fs).table u).functions = Table.enteredInto (s.table u).functions
      (if t = u ∧ (s.table u).frozen = false ∧ u < (s.fill t fs).tables.size then fs else [])
    rw [hsize, fill, table_setTable]
    by_cases htu : t = u
    · subst htu
      by_cases ht : t < s.tables.size
      · rw [if_pos ⟨rfl, ht⟩, if_pos ⟨rfl, hfrozen, ht⟩]
      · rw [if_neg fun h => ht h.2, if_neg fun h => ht h.2.2]
        rfl
    · rw [if_neg fun h => htu h.1, if_neg fun h => htu h.1]
      rfl

end Host

namespace Act

variable {s : Host} {t : TableId}

/-- Making registrations in order registers the functions that they make. -/
theorem state_enterAll (home : Option EngineId) (xs : List Entry) (s : Host) :
    (enterAll t home xs s).2 = (registerAll t (s.makeEntries home xs) s).2 := by
  induction xs generalizing s with
  | nil => rfl
  | cons x rest ih =>
    rw [Host.makeEntries, makeable, enterAll, bind_apply, enter, ask_bind_apply]
    cases hmade : x.toNative s.config.maxArity home with
    | error y => rfl
    | ok f =>
      have henter : (do let f ← lift (.ok f); register t f; pure f : Act Native) s =
          (do register t f; pure f : Act Native) s := rfl
      rw [henter, bind_apply, registerAll, bind_apply]
      cases hfrozen : (s.table t).frozen with
      | true => rw [register_of_frozen hfrozen]
      | false =>
        obtain ⟨s₁, hregister, -, -, hconfig, -⟩ := register_ok hfrozen f
        rw [hregister]
        have hrest := ih s₁
        rw [Host.makeEntries, hconfig] at hrest
        exact hrest

/-- Registering members in order registers the functions that they make. -/
theorem state_registerMembers (e : EngineId) (receiver : Option Kind) (ms : List Member)
    (s : Host) :
    (registerMembers e receiver ms s).2 =
      (registerAll (s.engine e).own (s.makeMembers e receiver ms) s).2 := by
  induction ms generalizing s with
  | nil => rfl
  | cons m rest ih =>
    rw [Host.makeMembers, makeable, registerMembers, bind_apply, registerMember, bind_apply,
      makeMember_apply]
    generalize (m.check "register" (s.engine e).features).bind
      (fun _ => m.toNative ⟨s.config.maxArity, some e, receiver⟩) = made
    cases made with
    | error y => rfl
    | ok f =>
      simp only [ask_bind_apply]
      rw [registerAll, bind_apply]
      cases hfrozen : (s.table (s.engine e).own).frozen with
      | true => rw [register_of_frozen hfrozen]
      | false =>
        obtain ⟨s₁, hregister, -, hengines, hconfig, -⟩ := register_ok hfrozen f
        have hengine : s₁.engine e = s.engine e := by rw [Host.engine, Host.engine, hengines]
        rw [hregister]
        have hrest := ih s₁
        rw [Host.makeMembers, hconfig, hengine] at hrest
        exact hrest

theorem featuresOr_cases (given : Option Features) (s : Host) :
    (∃ fs, s.featuresFor given = some fs ∧ featuresOr given s = (.ok fs, s)) ∨
      ∃ x, s.featuresFor given = none ∧ featuresOr given s = (.error x, s) := by
  cases given with
  | some fs => exact .inl ⟨fs, rfl, rfl⟩
  | none =>
    rw [featuresOr, ask_bind_apply, Host.featuresFor]
    cases s.config.features with
    | ok fs => exact .inl ⟨fs, rfl, rfl⟩
    | error x => exact .inr ⟨_, rfl, rfl⟩

end Act

/-! ## What commands do to the functions of the tables -/

namespace Host

variable {s : Host}

/-- A table that does not exist is open. -/
theorem frozen_of_le {t : TableId} (ht : s.tables.size ≤ t) : (s.table t).frozen = false := by
  rw [table, Array.getElem?_eq_none ht]
  rfl

/-- The functions of all tables are the same in both states, and the tables as many. -/
structure SameFunctions (s s' : Host) : Prop where
  functions : ∀ t, (s'.table t).functions = (s.table t).functions
  size : s'.tables.size = s.tables.size

theorem sameFunctions_of_tables_eq {s s' : Host} (h : s'.tables = s.tables) :
    s.SameFunctions s' where
  functions t := by rw [table, table, h]
  size := by rw [h]

/-- What an operation does after it has entered functions does not matter if it leaves the functions
alone. -/
theorem Serves.bind {α β : Type} {a : Act α} {f : α → Act β} {t : TableId} {fs : List Native}
    (h : s.Serves (a s).2 (some (t, fs)))
    (hf : ∀ (x : α) (s' : Host), s'.SameFunctions (f x s').2) :
    s.Serves ((a >>= f) s).2 (some (t, fs)) := by
  rw [Act.bind_apply]
  revert h
  rcases a s with ⟨y | x, s'⟩
  · exact id
  · exact fun h => h.between (fun _ => rfl) rfl (hf x s').functions (hf x s').size

/-- A package is closed, logged and noted once it is filled. -/
theorem sameFunctions_finish (p : PackageDef) (fs : Features) (t : TableId) (s : Host) :
    s.SameFunctions ((do
      Act.freeze t
      let size ← Act.ask fun s => (s.table t).size
      Act.log .info packageLogger s!"Built package {p.name} with {size} function(s)"
      let id ← Act.ask fun s => s.packages.size
      Act.change fun s => { s with packages := s.packages.push ⟨p, fs, t⟩ }
      pure id : Act PackageId) s).2 where
  functions := functions_freeze s t
  size := Array.size_setIfInBounds

theorem serves_buildPackage (p : PackageDef) (given : Option Features) (home : Option EngineId)
    (s : Host) : s.Serves (Act.buildPackage p given home s).2
      ((s.featuresFor given).map fun fs =>
        (s.tables.size, s.makeEntries home (p.entriesFor fs))) := by
  rw [Act.buildPackage, Act.bind_apply]
  rcases Act.featuresOr_cases given s with ⟨fs, hfeatures, heq⟩ | ⟨x, hfeatures, heq⟩
  · rw [hfeatures, heq]
    set s₁ : Host := { s with tables := s.tables.push (.empty (some p.name)) } with hs₁
    have hnew : Act.newTable (some p.name) s = (.ok s.tables.size, s₁) := rfl
    have hopen : (s₁.table s.tables.size).frozen = (s.table s.tables.size).frozen := by
      rw [frozen_of_le (Nat.le_refl _), hs₁, table, Array.getElem?_push_size]
      rfl
    have hfilled : s₁.Serves (Act.enterAll s.tables.size home (p.entriesFor fs) s₁).2
        (some (s.tables.size, s.makeEntries home (p.entriesFor fs))) := by
      rw [Act.state_enterAll]
      exact serves_registerAll s₁ s.tables.size (s₁.makeEntries home (p.entriesFor fs))
    dsimp only
    rw [Act.bind_apply, hnew]
    exact (hfilled.bind fun _ s' => sameFunctions_finish p fs s.tables.size s').between
      (functions_push s _) hopen (fun _ => rfl) rfl
  · rw [hfeatures, heq]
    exact serves_none fun _ => rfl

/-- An engine and its table are made in one go. -/
theorem ownTable_apply {α : Type} (name : Option String) (fs : Features) (rest : EngineId → Act α)
    (s : Host) : (do
      let own ← Act.newTable name
      let e ← Act.ask fun s => s.engines.size
      Act.change fun s => { s with engines := s.engines.push ⟨fs, own, [], [], false⟩ }
      rest e : Act α) s =
    rest s.engines.size { s with
      tables := s.tables.push (.empty name)
      engines := s.engines.push ⟨fs, s.tables.size, [], [], false⟩ } := rfl

/-- Loading a package that may be there changes an engine only. -/
theorem sameFunctions_load (e : EngineId) (id : PackageId) (s : Host) :
    s.SameFunctions ((do
      match ← Act.ask fun s => s.packages[id]? with
      | some package => Act.loadTable e package.table
      | none => pure ()
      pure e : Act EngineId) s).2 := by
  rw [Act.ask_bind_apply]
  cases s.packages[id]? <;> exact sameFunctions_of_tables_eq rfl

theorem serves_newEngine (given : Option Features) (withStrings : Bool) (s : Host) :
    s.Serves (Act.newEngine given withStrings s).2
      ((Command.newEngine given withStrings).offers s) := by
  rw [Act.newEngine, Act.bind_apply]
  rcases Act.featuresOr_cases given s with ⟨fs, hfeatures, heq⟩ | ⟨x, hfeatures, heq⟩
  · rw [heq]
    dsimp only
    rw [ownTable_apply]
    set s₁ : Host := { s with
      tables := s.tables.push (.empty (some Act.ownTableName))
      engines := s.engines.push ⟨fs, s.tables.size, [], [], false⟩ } with hs₁
    cases withStrings with
    | false => exact serves_none (functions_push s _)
    | true =>
      rw [Command.offers, hfeatures, if_pos rfl]
      have hsize : s₁.tables.size = s.tables.size + 1 := Array.size_push _
      have hopen : (s₁.table (s.tables.size + 1)).frozen =
          (s.table (s.tables.size + 1)).frozen := by
        rw [frozen_of_le (Nat.le_of_eq hsize), frozen_of_le (Nat.le_succ _)]
      have hbuilt : s₁.Serves (Act.buildPackage Strings.package (some fs) none s₁).2
          (some (s.tables.size + 1, s.makeEntries none (Strings.package.entriesFor fs))) := by
        rw [← hsize]
        exact serves_buildPackage Strings.package (some fs) none s₁
      exact (hbuilt.bind fun p s' => sameFunctions_load s.engines.size p s').between
        (functions_push s _) hopen (fun _ => rfl) rfl
  · rw [heq]
    cases withStrings with
    | false => exact serves_none fun _ => rfl
    | true =>
      rw [Command.offers, hfeatures]
      exact serves_none fun _ => rfl

theorem serves_closeBuilder (b : BuilderId) (s : Host) :
    s.Serves (Act.closeBuilder b s).2 ((Command.closeBuilder b).offers s) := by
  rw [Act.closeBuilder, Act.builder, Act.ask_bind_apply, Command.offers]
  cases s.builders[b]? with
  | none => exact serves_none fun _ => rfl
  | some state =>
    simp only [Option.getD_some, Option.bind_some]
    cases state.finalized with
    | true => exact serves_none fun _ => rfl
    | false =>
      have hregistered := serves_registerAll (s.setBuilder b { state with finalized := true })
        (s.engine state.engine).own state.pending
      have hrest : ∀ (x : Unit) (s' : Host), s'.SameFunctions ((do
          Act.registerKind state.engine state.kind state.name
          let name ← Act.ask fun s => (s.engine state.engine).kindName state.kind
          Act.log .info builderLogger
            s!"Built type {name} with {state.pending.length} member(s)" : Act Unit) s').2 :=
        fun _ _ => sameFunctions_of_tables_eq rfl
      exact (hregistered.bind hrest).between (fun _ => rfl) rfl (fun _ => rfl) rfl

end Host

/-! ## Commands that leave the tables alone -/

namespace Act

theorem tables_define (p : PackageDef) (s : Host) : (define p s).2.tables = s.tables := by
  rw [define]
  split
  · rfl
  · rw [ask_bind_apply]
    split <;> rfl

end Act

namespace Host

/-- The states have the same tables and the same engines. -/
structure SameTables (s s' : Host) : Prop where
  tables : s'.tables = s.tables
  engines : s'.engines = s.engines

theorem SameTables.trans {s s' s'' : Host} (h : s.SameTables s') (h' : s'.SameTables s'') :
    s.SameTables s'' :=
  ⟨h'.tables.trans h.tables, h'.engines.trans h.engines⟩

theorem OnlyBuilders.sameTables {s s' : Host} (h : s.OnlyBuilders s') : s.SameTables s' := by
  rw [OnlyBuilders] at h
  rw [h]
  exact ⟨rfl, rfl⟩

/-- A computation on the heap changes the heap only. -/
theorem sameTables_run {α : Type} (r : Run α) (s : Host) : s.SameTables (Act.run r s).2 := by
  rw [Act.run]
  split <;> exact ⟨rfl, rfl⟩

theorem sameTables_cast (a : Addr) (k : Kind) (s : Host) : s.SameTables (Act.cast a k s).2 := by
  rw [Act.cast, Act.ask_bind_apply, Act.ask_bind_apply]
  rcases s.heap.tryCast a k with ⟨_ | v, h⟩ <;> exact ⟨rfl, rfl⟩

theorem sameTables_call (e : EngineId) (name : String) (arguments : List Value) (s : Host) :
    s.SameTables (Act.call e name arguments s).2 := sameTables_run _ s

theorem sameTables_emit (e : EngineId) (channel : Channel) (arguments : List Value) (s : Host) :
    s.SameTables (Act.emit e channel arguments s).2 := by
  refine Act.bind_along SameTables .trans (sameTables_call e _ arguments s) fun answer s₁ _ => ?_
  rw [Act.ask_bind_apply, Act.ask_bind_apply]
  split
  · exact ⟨rfl, rfl⟩
  · rw [Act.ask_bind_apply]
    cases s₁.heap.shownText s₁.config.precision (s₁.heap.unwrap answer) <;> exact ⟨rfl, rfl⟩

/-- **Describing types and working with values leaves tables and engines alone.** -/
theorem sameTables_apply {c : Command} (hc : c.describes = true ∨ c.onValues = true) (s : Host) :
    s.SameTables (c.apply s) := by
  rcases hc with hc | hc
  · exact (Command.onlyBuilders_apply hc s).sameTables
  · cases c with
    | build d => exact ⟨rfl, rfl⟩
    | wrap v => exact ⟨rfl, rfl⟩
    | clone a => exact ⟨rfl, rfl⟩
    | cast a k =>
      rw [Command.apply, Command.perform, Act.state_discard]
      exact sameTables_cast a k s
    | call e name arguments =>
      rw [Command.apply, Command.perform, Act.state_discard]
      exact sameTables_call e name arguments s
    | invoke f arguments =>
      rw [Command.apply, Command.perform, Act.state_discard]
      exact sameTables_run _ s
    | emit e channel arguments =>
      rw [Command.apply, Command.perform, Act.state_discard]
      exact sameTables_emit e channel arguments s
    | _ => exact absurd hc Bool.false_ne_true

/-- **A command does to the functions of the tables what its offer says.** -/
theorem serves_apply (c : Command) (s : Host) : s.Serves (c.apply s) (c.offers s) := by
  cases c with
  | newTable name => exact serves_none (functions_push s name)
  | register t f =>
    have hstate : (Act.registerAll t [f] s).2 = (Act.register t f s).2 := by
      rw [Act.registerAll, Act.bind_apply]
      rcases Act.register t f s with ⟨_ | _, _⟩ <;> rfl
    rw [Command.apply, Command.perform, ← hstate]
    exact serves_registerAll s t [f]
  | enter t home x =>
    have hstate : (Command.enter t home x).apply s = (Act.enterAll t home [x] s).2 := rfl
    rw [hstate, Act.state_enterAll]
    exact serves_registerAll s t _
  | merge t u => exact serves_registerAll s t _
  | freeze t => exact serves_none (functions_freeze s t)
  | define p => exact serves_none_of_tables_eq (Act.tables_define p s)
  | buildPackage p given home =>
    rw [Command.apply, Command.perform, Act.state_discard]
    exact serves_buildPackage p given home s
  | populate id t home =>
    rw [Command.apply, Command.perform, Act.ask_bind_apply, Command.offers]
    cases s.packages[id]? with
    | none => exact serves_none fun _ => rfl
    | some package =>
      have hpopulated := serves_registerAll s t
        (s.makeEntries home (package.definition.entriesFor package.features))
      rw [← Act.state_enterAll] at hpopulated
      exact hpopulated
  | newEngine given withStrings =>
    rw [Command.apply, Command.perform, Act.state_discard]
    exact serves_newEngine given withStrings s
  | addTable e t => exact serves_none_of_tables_eq rfl
  | loadTable e t => exact serves_none_of_tables_eq rfl
  | registerMembers e receiver ms =>
    rw [Command.apply, Command.perform, Act.state_registerMembers]
    exact serves_registerAll s _ _
  | registerKind e k name => exact serves_none_of_tables_eq rfl
  | hook e => exact serves_none_of_tables_eq rfl
  | closeBuilder b => exact serves_closeBuilder b s
  | configure c => exact serves_none_of_tables_eq rfl
  | openBuilder e k => exact serves_none_of_tables_eq (sameTables_apply (.inl rfl) s).tables
  | addMembers b ms => exact serves_none_of_tables_eq (sameTables_apply (.inl rfl) s).tables
  | nameType b name => exact serves_none_of_tables_eq (sameTables_apply (.inl rfl) s).tables
  | build d => exact serves_none_of_tables_eq (sameTables_apply (.inr rfl) s).tables
  | wrap v => exact serves_none_of_tables_eq (sameTables_apply (.inr rfl) s).tables
  | clone a => exact serves_none_of_tables_eq (sameTables_apply (.inr rfl) s).tables
  | cast a k => exact serves_none_of_tables_eq (sameTables_apply (.inr rfl) s).tables
  | call e name arguments => exact serves_none_of_tables_eq (sameTables_apply (.inr rfl) s).tables
  | invoke f arguments => exact serves_none_of_tables_eq (sameTables_apply (.inr rfl) s).tables
  | emit e channel arguments =>
    exact serves_none_of_tables_eq (sameTables_apply (.inr rfl) s).tables

/-! ## Registrations that succeed -/

end Host

/-- The registrations into a table that succeed in a command. -/
def Command.registered (t : TableId) (s : Host) (c : Command) : List Native :=
  s.takes (c.apply s) (c.offers s) t

namespace Host

/-- The registrations into a table that succeed in a run, in order. -/
def registered (t : TableId) (s : Host) (cs : List Command) : List Native :=
  (s.trace cs).flatMap fun p => p.1.registered t p.2

/-- **A table holds what it held and the registrations that succeed.** -/
theorem functions_after (s : Host) (cs : List Command) (t : TableId) :
    ((s.after cs).table t).functions =
      Table.enteredInto (s.table t).functions (s.registered t cs) := by
  induction cs generalizing s with
  | nil => rfl
  | cons c cs ih =>
    rw [after_cons, ih, serves_apply c s t, ← Table.enteredInto_append]
    rfl

/-- **Tables are well kept in every run**, whichever of its operations succeed and fail: each is
what writing the functions makes whose registration succeeded, one after another.  And once a table
is closed nothing that follows changes it. -/
theorem wellKept_after (cs : List Command) (t : TableId) :
    ((Host.initial.after cs).table t).WellKept (Host.initial.registered t cs) ∧
      (((Host.initial.after cs).table t).frozen = true →
        ∀ ds, ((Host.initial.after cs).after ds).table t = (Host.initial.after cs).table t) := by
  refine ⟨Table.wellKept_of_entered (functions_after .initial cs t), fun ht ds => ?_⟩
  exact table_after_of_frozen ht ds

end Host
end ScriptHost
