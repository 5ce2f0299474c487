import ScriptHost.Host.Engines

/-!
# Runs of a host

Whoever embeds the runtime drives it by operations on tables, packages, engines, builders and
values.  A `Command` is one of these operations with its arguments, `Command.apply` the state
it leaves whether it succeeds or fails, and `Host.after` the state after a list of them.
What can be said of every state that a host gets into is said of `Host.after`.

Describing a type is opening a builder, any commands, and closing the builder, so it needs no
command of its own.

Most commands are made of few changes of the state.  `Host.Along B R` lists these changes and
says that the relation `R` holds across each of them, where only the builders in `B` are changed;
`Command.apply_along` concludes that it holds across every command that names no other builder.
An invariant is proved by giving the relation and its twelve fields, and never looks at a command
again.  What the heap becomes is left to a hypothesis: for a relation that does not look at the
heap it is immediate, and for one that does it is needed only of the commands on values.
-/

namespace ScriptHost

/-- An operation that drives a host. -/
inductive Command where
  | newTable (name : Option String)
  /-- Registers a function that has been made before. -/
  | register (t : TableId) (f : Native)
  | enter (t : TableId) (home : Option EngineId) (e : Entry)
  | merge (target source : TableId)
  | freeze (t : TableId)
  | define (p : PackageDef)
  | buildPackage (p : PackageDef) (given : Option Features) (home : Option EngineId)
  /-- Makes the registrations of a package that has been built in another table. -/
  | populate (p : PackageId) (t : TableId) (home : Option EngineId)
  | newEngine (given : Option Features) (withStrings : Bool)
  | addTable (e : EngineId) (t : TableId)
  | loadTable (e : EngineId) (t : TableId)
  /-- Registers one member, or the members of a property in order. -/
  | registerMembers (e : EngineId) (receiver : Option Kind) (ms : List Member)
  | registerKind (e : EngineId) (k : Kind) (name : Option String)
  | hook (e : EngineId)
  | openBuilder (e : EngineId) (k : Kind)
  | addMembers (b : BuilderId) (ms : List Member)
  | nameType (b : BuilderId) (name : String)
  | closeBuilder (b : BuilderId)
  | configure (c : Config)
  /-- Makes a new value. -/
  | build (d : Datum)
  | wrap (v : Value)
  | clone (a : Addr)
  | cast (a : Addr) (k : Kind)
  | call (e : EngineId) (name : String) (arguments : List Value)
  | invoke (f : Native) (arguments : List Value)
  | emit (e : EngineId) (channel : Channel) (arguments : List Value)

namespace Command

open Act in
/-- What a command does. -/
def perform : Command → Act Unit
  | .newTable name => do let _ ← Act.newTable name
  | .register t f => Act.register t f
  | .enter t home e => do let _ ← Act.enter t home e
  | .merge target source => Act.merge target source
  | .freeze t => Act.freeze t
  | .define p => Act.define p
  | .buildPackage p given home => do let _ ← Act.buildPackage p given home
  | .populate p t home => do
    match ← ask fun s => s.packages[p]? with
    | some package => Act.populate package t home
    | none => pure ()
  | .newEngine given withStrings => do let _ ← Act.newEngine given withStrings
  | .addTable e t => Act.addTable e t
  | .loadTable e t => Act.loadTable e t
  | .registerMembers e receiver ms => Act.registerMembers e receiver ms
  | .registerKind e k name => Act.registerKind e k name
  | .hook e => Act.hook e
  | .openBuilder e k => do let _ ← Act.openBuilder e k
  | .addMembers b ms => Act.addMembers b ms
  | .nameType b name => Act.nameType b name
  | .closeBuilder b => Act.closeBuilder b
  | .configure c => change fun s => { s with config := c }
  | .build d => change fun s => { s with heap := (s.heap.build d).2 }
  | .wrap v => change fun s => { s with heap := (s.heap.wrap v).2 }
  | .clone a => change fun s => { s with heap := (s.heap.clone a).2 }
  | .cast a k => do let _ ← Act.cast a k
  | .call e name arguments => do let _ ← Act.call e name arguments
  | .invoke f arguments => do let _ ← Act.invoke f arguments
  | .emit e channel arguments => do let _ ← Act.emit e channel arguments

/-- The state that a command leaves, whether it succeeds or fails. -/
def apply (c : Command) (s : Host) : Host := (c.perform s).2

/-- The builder that a command is about. -/
def builder? : Command → Option BuilderId
  | .addMembers b _ | .nameType b _ | .closeBuilder b => some b
  | _ => none

/-- Whether a command is about values, the only ones that can change the heap. -/
def onValues : Command → Bool
  | .build _ | .wrap _ | .clone _ | .cast .. | .call .. | .invoke .. | .emit .. => true
  | _ => false

end Command

/-- The state after commands in order. -/
def Host.after (s : Host) (cs : List Command) : Host := cs.foldl (fun s c => c.apply s) s

@[simp] theorem Host.after_nil (s : Host) : s.after [] = s := rfl

@[simp] theorem Host.after_cons (s : Host) (c : Command) (cs : List Command) :
    s.after (c :: cs) = (c.apply s).after cs := rfl

theorem Host.after_append (s : Host) (cs ds : List Command) :
    s.after (cs ++ ds) = (s.after cs).after ds :=
  List.foldl_append

/-! ## The changes that operations are made of -/

namespace Host

/-- The state with another table in place of one. -/
def setTable (s : Host) (t : TableId) (new : Table) : Host :=
  { s with tables := s.tables.setIfInBounds t new }

/-- The state with another engine in place of one. -/
def setEngine (s : Host) (e : EngineId) (new : Engine) : Host :=
  { s with engines := s.engines.setIfInBounds e new }

/-- The state with another builder in place of one. -/
def setBuilder (s : Host) (b : BuilderId) (new : Builder) : Host :=
  { s with builders := s.builders.setIfInBounds b new }

theorem table_setTable (s : Host) (t u : TableId) (new : Table) :
    (s.setTable t new).table u = if t = u ∧ t < s.tables.size then new else s.table u := by
  rw [table, table, setTable, Array.getElem?_setIfInBounds]
  by_cases htu : t = u
  · subst htu
    by_cases ht : t < s.tables.size
    · simp [ht]
    · simp [ht]
  · simp [htu]

theorem engine_setEngine (s : Host) (e d : EngineId) (new : Engine) :
    (s.setEngine e new).engine d = if e = d ∧ e < s.engines.size then new else s.engine d := by
  rw [engine, engine, setEngine, Array.getElem?_setIfInBounds]
  by_cases hed : e = d
  · subst hed
    by_cases he : e < s.engines.size
    · simp [he]
    · simp [he]
  · simp [hed]

/-- Every builder may be changed. -/
def anyBuilder : BuilderId → Prop := fun _ => True

/-- A relation between states that holds across each single change of a state but those of the
heap; of the builders that exist only those in `B` are changed. -/
structure Along (B : BuilderId → Prop) (R : Host → Host → Prop) : Prop where
  refl : ∀ s, R s s
  trans : ∀ {s t u}, R s t → R t u → R s u
  /-- The configuration, the registry, the log and what was printed. -/
  aside : ∀ s config registry log received, R s { s with config, registry, log, received }
  /-- A package is there once its table is closed. -/
  packed : ∀ s p, (s.table p.table).frozen = true → R s { s with packages := s.packages.push p }
  newTable : ∀ s name, R s { s with tables := s.tables.push (.empty name) }
  entered : ∀ s t f, (s.table t).frozen = false →
    R s (s.setTable t { s.table t with functions := Table.insert f (s.table t).functions })
  frozen : ∀ s t, R s (s.setTable t (s.table t).freeze)
  /-- An engine comes with a table of its own. -/
  newEngine : ∀ s fs name, R s { s with
    tables := s.tables.push (.empty name)
    engines := s.engines.push ⟨fs, s.tables.size, [], [], false⟩ }
  loaded : ∀ s e t, R s (s.setEngine e { s.engine e with loaded := (s.engine e).loaded ++ [t] })
  named : ∀ s e names hooked, R s (s.setEngine e { s.engine e with names, hooked })
  opened : ∀ s e k, R s { s with builders := s.builders.push ⟨e, k, none, [], false⟩ }
  collected : ∀ s b state, B b → s.builders[b]? = some state → state.finalized = false →
    ∀ name pending finalized, R s (s.setBuilder b { state with name, pending, finalized })

/-- No operation takes a table away. -/
theorem along_size : Along anyBuilder fun s s' => s.tables.size ≤ s'.tables.size where
  refl _ := Nat.le_refl _
  trans h₁ h₂ := Nat.le_trans h₁ h₂
  aside _ _ _ _ _ := Nat.le_refl _
  packed _ _ _ := Nat.le_refl _
  newTable s name := by
    rw [Array.size_push]
    exact Nat.le_succ _
  entered s t f _ := Nat.le_of_eq Array.size_setIfInBounds.symm
  frozen s t := Nat.le_of_eq Array.size_setIfInBounds.symm
  newEngine s fs name := by
    rw [Array.size_push]
    exact Nat.le_succ _
  loaded _ _ _ := Nat.le_refl _
  named _ _ _ _ := Nat.le_refl _
  opened _ _ _ := Nat.le_refl _
  collected _ _ _ _ _ _ _ _ _ := Nat.le_refl _

end Host

namespace Act

variable {α β : Type} {B : BuilderId → Prop} {R : Host → Host → Prop}

theorem bind_apply (a : Act α) (f : α → Act β) (s : Host) :
    (a >>= f) s = match a s with
      | (.ok x, s') => f x s'
      | (.error e, s') => (.error e, s') := by
  simp only [bind, ExceptT.bind, ExceptT.mk, StateT.bind, ExceptT.bindCont]
  rcases a s with ⟨_ | _, _⟩ <;> rfl

/-- Two operations in a row succeed if both do. -/
theorem bind_eq_ok_iff {a : Act α} {f : α → Act β} {s s' : Host} {y : β} :
    (a >>= f) s = (.ok y, s') ↔ ∃ v t, a s = (.ok v, t) ∧ f v t = (.ok y, s') := by
  rw [bind_apply]
  constructor
  · intro h
    rcases ha : a s with ⟨e | v, t⟩
    · rw [ha] at h
      exact absurd (Prod.mk.inj h).1 nofun
    · rw [ha] at h
      exact ⟨v, t, rfl, h⟩
  · rintro ⟨v, t, ha, hf⟩
    rw [ha]
    exact hf

/-- Two operations in a row fail if the first fails, or the second where the first has led. -/
theorem bind_eq_error_iff {a : Act α} {f : α → Act β} {s s' : Host} {x : Failure} :
    (a >>= f) s = (.error x, s') ↔
      a s = (.error x, s') ∨ ∃ v t, a s = (.ok v, t) ∧ f v t = (.error x, s') := by
  rw [bind_apply]
  constructor
  · intro h
    rcases ha : a s with ⟨e | v, t⟩
    · rw [ha] at h
      obtain ⟨hfailure, hstate⟩ := Prod.mk.inj h
      rw [← Except.error.inj hfailure, ← hstate]
      exact .inl rfl
    · rw [ha] at h
      exact .inr ⟨v, t, rfl, h⟩
  · rintro (ha | ⟨v, t, ha, hf⟩)
    · rw [ha]
    · rw [ha]
      exact hf

theorem ask_bind_apply (g : Host → α) (f : α → Act β) (s : Host) :
    (ask g >>= f) s = f (g s) s := rfl

/-- What holds across one operation, and across the next from where the first has led, holds across
both. -/
theorem bind_along (R : Host → Host → Prop) (htrans : ∀ {s t u}, R s t → R t u → R s u)
    {a : Act α} {f : α → Act β} {s : Host} (ha : R s (a s).2)
    (hf : ∀ x s', a s = (.ok x, s') → R s' (f x s').2) : R s ((a >>= f) s).2 := by
  rw [bind_apply]
  revert ha hf
  rcases a s with ⟨e | x, s'⟩
  · exact fun ha _ => ha
  · exact fun ha hf => htrans ha (hf x s' rfl)

/-- A new table is one of the tables. -/
theorem lt_of_newTable {name : Option String} {s s' : Host} {t : TableId}
    (h : newTable name s = (.ok t, s')) : t < s'.tables.size := by
  have hmade : newTable name s =
      (.ok s.tables.size, { s with tables := s.tables.push (.empty name) }) := rfl
  obtain ⟨hid, hstate⟩ := Prod.mk.inj (hmade.symm.trans h)
  rw [← hstate, ← Except.ok.inj hid, Array.size_push]
  exact Nat.lt_succ_self _

/-- A closed table takes no function. -/
theorem register_of_frozen {t : TableId} {f : Native} {s : Host}
    (h : (s.table t).frozen = true) :
    register t f s = (.error (.frozen (s.table t).title), s) := by
  rw [register, ask_bind_apply, Table.register, if_pos h]
  rfl

/-- An open table takes every function. -/
theorem register_of_open {t : TableId} {f : Native} {s : Host}
    (h : (s.table t).frozen = false) :
    register t f s =
      (.ok (), Host.setTable
        (log .debug tableLogger ((if (s.table t).contains f.key then "Replacing "
          else "Registering ") ++ f.signature) s).2
        t { s.table t with functions := Table.insert f (s.table t).functions }) := by
  rw [register, ask_bind_apply, Table.register, h, if_neg Bool.false_ne_true, ← h]
  rfl

/-- Making the function of a member reads the state and leaves it. -/
theorem makeMember_apply (e : EngineId) (verb : String) (receiver : Option Kind) (m : Member)
    (s : Host) :
    makeMember e verb receiver m s =
      ((m.check verb (s.engine e).features).bind fun _ =>
        m.toNative ⟨s.config.maxArity, some e, receiver⟩, s) := by
  rw [makeMember, ask_bind_apply, bind_apply]
  rcases m.check verb (s.engine e).features with _ | _ <;> rfl

/-- A builder that is still open exists. -/
theorem builder_of_not_finalized {s : Host} {b : BuilderId} {state : Builder}
    (h : s.builders[b]?.getD ⟨0, .unit, none, [], true⟩ = state) (hopen : state.finalized = false) :
    s.builders[b]? = some state := by
  cases hb : s.builders[b]? with
  | some found =>
    rw [hb] at h
    rw [← h]
    rfl
  | none =>
    rw [hb] at h
    rw [← h] at hopen
    exact absurd hopen (by simp)

/-- A builder takes a member or leaves everything as it is. -/
theorem addMember_cases (b : BuilderId) (m : Member) (s : Host) :
    (∃ x, addMember b m s = (.error x, s)) ∨
      ∃ state f, s.builders[b]? = some state ∧ state.finalized = false ∧
        makeMember state.engine "with" (some state.kind) m s = (.ok f, s) ∧
        addMember b m s =
          (.ok (), s.setBuilder b { state with pending := state.pending ++ [f] }) := by
  rw [addMember, builder, ask_bind_apply, bind_apply]
  generalize hstate : s.builders[b]?.getD _ = state
  have hmake := makeMember_apply state.engine "with" (some state.kind) m s
  split
  · rename_i f s' heq
    obtain rfl : s' = s := (Prod.mk.inj (heq.symm.trans hmake)).2
    cases hopen : state.finalized with
    | true => exact .inl ⟨.finalized, rfl⟩
    | false =>
      refine .inr ⟨state, f, builder_of_not_finalized hstate hopen, hopen, heq, ?_⟩
      rw [hopen]
      rfl
  · rename_i x s' heq
    obtain rfl : s' = s := (Prod.mk.inj (heq.symm.trans hmake)).2
    exact .inl ⟨x, rfl⟩

/-- A builder takes a name or leaves everything as it is. -/
theorem nameType_cases (b : BuilderId) (name : String) (s : Host) :
    (∃ x, nameType b name s = (.error x, s)) ∨
      ∃ state, s.builders[b]? = some state ∧ state.finalized = false ∧
        nameType b name s = (.ok (), s.setBuilder b { state with name := some name }) := by
  rw [nameType, builder, ask_bind_apply]
  generalize hstate : s.builders[b]?.getD _ = state
  cases hopen : state.finalized with
  | true => exact .inl ⟨.finalized, rfl⟩
  | false =>
    refine .inr ⟨state, builder_of_not_finalized hstate hopen, hopen, ?_⟩
    rw [hopen]
    rfl

/-- An operation takes every state to one that is related to it. -/
def Moves (R : Host → Host → Prop) (a : Act α) : Prop := ∀ s, R s (a s).2

section Moves

variable (hR : Host.Along B R)
include hR

theorem moves_bind_at {a : Act α} {f : α → Act β} {s : Host} (ha : R s (a s).2)
    (hf : ∀ x, Moves R (f x)) : R s ((a >>= f) s).2 :=
  bind_along R hR.trans ha fun x s' _ => hf x s'

theorem Moves.bind {a : Act α} {f : α → Act β} (ha : Moves R a) (hf : ∀ x, Moves R (f x)) :
    Moves R (a >>= f) := fun s => moves_bind_at hR (ha s) hf

theorem moves_pure (x : α) : Moves R (pure x : Act α) := fun s => hR.refl s

theorem moves_ask (g : Host → α) : Moves R (ask g) := fun s => hR.refl s

theorem moves_lift (x : Except Failure α) : Moves R (lift x) := fun s => hR.refl s

theorem moves_fail (e : Failure) : Moves R (fail e : Act α) := fun s => hR.refl s

theorem moves_log (level : Level) (logger text : String) : Moves R (log level logger text) :=
  fun s => hR.aside s _ _ _ _

/-- Registering changes the log and the table, if the table is open. -/
theorem moves_register (t : TableId) (f : Native) : Moves R (register t f) := by
  intro s
  cases hfrozen : (s.table t).frozen with
  | true =>
    rw [register_of_frozen hfrozen]
    exact hR.refl s
  | false =>
    rw [register_of_open hfrozen]
    exact hR.trans (moves_log hR .debug tableLogger _ s) (hR.entered _ t f hfrozen)

theorem moves_registerAll (t : TableId) (fs : List Native) : Moves R (registerAll t fs) := by
  induction fs with
  | nil => exact moves_pure hR ()
  | cons f rest ih => exact (moves_register hR t f).bind hR fun _ => ih

theorem moves_merge (target source : TableId) : Moves R (merge target source) :=
  (moves_ask hR _).bind hR fun fs => moves_registerAll hR target fs

theorem moves_newTable (name : Option String) : Moves R (newTable name) :=
  (moves_ask hR _).bind hR fun _ =>
    Moves.bind hR (fun s => hR.newTable s name) fun _ => moves_pure hR _

theorem moves_freeze (t : TableId) : Moves R (freeze t) := fun s => hR.frozen s t

theorem moves_enter (t : TableId) (home : Option EngineId) (e : Entry) :
    Moves R (enter t home e) :=
  (moves_ask hR _).bind hR fun _ => (moves_lift hR _).bind hR fun f =>
    (moves_register hR t f).bind hR fun _ => moves_pure hR f

theorem moves_enterAll (t : TableId) (home : Option EngineId) (es : List Entry) :
    Moves R (enterAll t home es) := by
  induction es with
  | nil => exact moves_pure hR ()
  | cons e rest ih => exact (moves_enter hR t home e).bind hR fun _ => ih

theorem moves_featuresOr (given : Option Features) : Moves R (featuresOr given) := by
  cases given with
  | some fs => exact moves_pure hR fs
  | none =>
    refine (moves_ask hR _).bind hR fun r => ?_
    cases r with
    | ok fs => exact moves_pure hR fs
    | error e => exact moves_fail hR _

theorem moves_buildPackage (p : PackageDef) (given : Option Features) (home : Option EngineId) :
    Moves R (buildPackage p given home) := by
  refine (moves_featuresOr hR given).bind hR fun fs s₀ => ?_
  refine bind_along R hR.trans (moves_newTable hR _ s₀) fun t s₁ hnew => ?_
  refine bind_along R hR.trans (moves_enterAll hR t home _ s₁) fun _ s₂ hentered => ?_
  refine bind_along R hR.trans (moves_freeze hR t s₂) fun _ s₃ hfrozen => ?_
  -- the table is there since it was made, and closed since it was filled
  have ht : t < s₂.tables.size := by
    have hgrown := moves_enterAll Host.along_size t home (p.entriesFor fs) s₁
    rw [hentered] at hgrown
    exact Nat.lt_of_lt_of_le (lt_of_newTable hnew) hgrown
  have hclosed : (s₃.table t).frozen = true := by
    rw [← (Prod.mk.inj hfrozen).2]
    exact congrArg Table.frozen ((Host.table_setTable s₂ t t _).trans (if_pos ⟨rfl, ht⟩))
  exact hR.trans (hR.aside s₃ _ _ _ _) (hR.packed _ _ hclosed)

theorem moves_define (p : PackageDef) : Moves R (define p) := by
  rw [define]
  split
  · exact moves_pure hR ()
  · refine (moves_ask hR _).bind hR fun known => ?_
    have hput : Moves R (change fun s => { s with registry := Registry.put s.registry p }) :=
      fun s => hR.aside s _ _ _ _
    split
    · exact (moves_log hR _ _ _).bind hR fun _ => hput
    · exact hput

theorem moves_addTable (e : EngineId) (t : TableId) : Moves R (addTable e t) :=
  fun s => hR.loaded s e t

theorem moves_loadTable (e : EngineId) (t : TableId) : Moves R (loadTable e t) :=
  (moves_ask hR _).bind hR fun _ => (moves_log hR _ _ _).bind hR fun _ => moves_addTable hR e t

/-- An engine and its table are made in one go. -/
theorem moves_ownTable {rest : EngineId → Act α} (name : Option String) (fs : Features)
    (hrest : ∀ e, Moves R (rest e)) : Moves R (do
      let own ← newTable name
      let e ← ask fun s => s.engines.size
      change fun s => { s with engines := s.engines.push ⟨fs, own, [], [], false⟩ }
      rest e) :=
  fun s => hR.trans (hR.newEngine s fs name) (hrest _ _)

theorem moves_newEngine (given : Option Features) (withStrings : Bool) :
    Moves R (newEngine given withStrings) := by
  refine (moves_featuresOr hR given).bind hR fun fs => moves_ownTable hR _ fs fun e => ?_
  have hend : Moves R (pure e : Act EngineId) := moves_pure hR e
  split
  · refine (moves_buildPackage hR _ _ _).bind hR fun p => (moves_ask hR _).bind hR fun found => ?_
    cases found with
    | some package => exact (moves_loadTable hR e _).bind hR fun _ => hend
    | none => exact (moves_pure hR _).bind hR fun _ => hend
  · exact (moves_pure hR _).bind hR fun _ => hend

theorem moves_makeMember (e : EngineId) (verb : String) (receiver : Option Kind) (m : Member) :
    Moves R (makeMember e verb receiver m) :=
  (moves_ask hR _).bind hR fun _ => (moves_lift hR _).bind hR fun _ =>
    ((moves_ask hR _).bind hR fun _ => moves_pure hR _).bind hR fun _ => moves_lift hR _

theorem moves_registerMember (e : EngineId) (receiver : Option Kind) (m : Member) :
    Moves R (registerMember e receiver m) :=
  (moves_makeMember hR e _ receiver m).bind hR fun f => (moves_ask hR _).bind hR fun _ =>
    moves_register hR _ f

theorem moves_registerMembers (e : EngineId) (receiver : Option Kind) (ms : List Member) :
    Moves R (registerMembers e receiver ms) := by
  induction ms with
  | nil => exact moves_pure hR ()
  | cons m rest ih => exact (moves_registerMember hR e receiver m).bind hR fun _ => ih

theorem moves_registerKind (e : EngineId) (k : Kind) (name : Option String) :
    Moves R (registerKind e k name) :=
  Moves.bind hR (fun s => hR.named s e _ _) fun _ => moves_log hR _ _ _

theorem moves_hook (e : EngineId) : Moves R (hook e) := fun s => hR.named s e _ _

theorem moves_openBuilder (e : EngineId) (k : Kind) : Moves R (openBuilder e k) :=
  (moves_ask hR _).bind hR fun _ =>
    Moves.bind hR (fun s => hR.opened s e k) fun _ => moves_pure hR _

theorem moves_nameType {b : BuilderId} (hb : B b) (name : String) : Moves R (nameType b name) := by
  intro s
  rcases nameType_cases b name s with ⟨x, heq⟩ | ⟨state, hstate, hopen, heq⟩
  · rw [heq]
    exact hR.refl s
  · rw [heq]
    exact hR.collected s b state hb hstate hopen _ _ _

theorem moves_addMember {b : BuilderId} (hb : B b) (m : Member) : Moves R (addMember b m) := by
  intro s
  rcases addMember_cases b m s with ⟨x, heq⟩ | ⟨state, f, hstate, hopen, -, heq⟩
  · rw [heq]
    exact hR.refl s
  · rw [heq]
    exact hR.collected s b state hb hstate hopen _ _ _

theorem moves_addMembers {b : BuilderId} (hb : B b) (ms : List Member) :
    Moves R (addMembers b ms) := by
  induction ms with
  | nil => exact moves_pure hR ()
  | cons m rest ih => exact (moves_addMember hR hb m).bind hR fun _ => ih

theorem moves_closeBuilder {b : BuilderId} (hb : B b) : Moves R (closeBuilder b) := by
  intro s
  rw [closeBuilder, builder, ask_bind_apply]
  generalize hstate : s.builders[b]?.getD _ = state
  cases hopen : state.finalized with
  | true =>
    rw [if_pos rfl]
    exact hR.refl s
  | false =>
    rw [if_neg Bool.false_ne_true]
    refine moves_bind_at hR ?_ fun _ => (moves_ask hR _).bind hR fun _ =>
      (moves_registerAll hR _ _).bind hR fun _ => (moves_registerKind hR _ _ _).bind hR fun _ =>
        (moves_ask hR _).bind hR fun _ => moves_log hR _ _ _
    exact hR.collected s b state hb (builder_of_not_finalized hstate hopen) hopen _ _ _

/-! ## Operations on values

These are followed from one state, since what they do to the heap depends on it. -/

variable {s : Host}

/-- A computation on the heap changes the heap only. -/
theorem along_run {r : Run α}
    (hheap : ∀ outcome h, r s.heap = some (outcome, h) → R s { s with heap := h }) :
    R s (run r s).2 := by
  rw [run]
  split
  · rename_i hrun
    exact hheap _ _ hrun
  · rename_i hrun
    exact hheap _ _ hrun
  · exact hR.refl s

theorem along_call {e : EngineId} {name : String} {arguments : List Value}
    (hheap : ∀ outcome h, s.linkage.call callDepth e name arguments s.heap = some (outcome, h) →
      R s { s with heap := h }) : R s (call e name arguments s).2 :=
  along_run hR hheap

theorem along_invoke {f : Native} {arguments : List Value}
    (hheap : ∀ outcome h, s.linkage.invoke callDepth f arguments s.heap = some (outcome, h) →
      R s { s with heap := h }) : R s (invoke f arguments s).2 :=
  along_run hR hheap

theorem along_cast {a : Addr} {k : Kind}
    (hheap : R s { s with heap := (s.heap.tryCast a k).2 }) : R s (cast a k s).2 := by
  rw [cast, ask_bind_apply, ask_bind_apply]
  revert hheap
  rcases s.heap.tryCast a k with ⟨_ | v, h⟩
  · exact fun _ => hR.refl s
  · exact id

/-- Handing text on is a call and changes nothing else of the heap. -/
theorem along_emit {e : EngineId} {channel : Channel} {arguments : List Value}
    (hcall : R s (call e (channelFunction channel) arguments s).2) :
    R s (emit e channel arguments s).2 := by
  refine moves_bind_at hR hcall fun answer => (moves_ask hR _).bind hR
    fun text => (moves_ask hR _).bind hR fun hooked => ?_
  have hend : Moves R (pure text : Act Value) := moves_pure hR text
  split
  · exact Moves.bind hR (fun s => hR.aside s _ _ _ _) fun _ => hend
  · refine (moves_ask hR _).bind hR fun shown => ?_
    cases shown with
    | ok line => exact (moves_log hR _ _ _).bind hR fun _ => hend
    | error _ => exact hend

end Moves
end Act

/-- **A relation that holds across each single change holds across every command.** -/
theorem Command.apply_along {B : BuilderId → Prop} {R : Host → Host → Prop} (hR : Host.Along B R)
    (c : Command) (hB : ∀ b, c.builder? = some b → B b)
    (hheap : c.onValues = true → ∀ s h, R s { s with heap := h }) (s : Host) :
    R s (c.apply s) := by
  have hdrop : ∀ {α : Type} {a : Act α}, Act.Moves R a → Act.Moves R (do let _ ← a) :=
    fun ha => ha.bind hR fun _ => Act.moves_pure hR _
  suffices h : Act.Moves R c.perform from h s
  cases c with
  | newTable name => exact hdrop (Act.moves_newTable hR name)
  | register t f => exact Act.moves_register hR t f
  | enter t home e => exact hdrop (Act.moves_enter hR t home e)
  | merge target source => exact Act.moves_merge hR target source
  | freeze t => exact Act.moves_freeze hR t
  | define p => exact Act.moves_define hR p
  | buildPackage p given home => exact hdrop (Act.moves_buildPackage hR p given home)
  | populate p t home =>
    refine (Act.moves_ask hR _).bind hR fun found => ?_
    cases found with
    | some package => exact Act.moves_enterAll hR t home _
    | none => exact Act.moves_pure hR ()
  | newEngine given withStrings => exact hdrop (Act.moves_newEngine hR given withStrings)
  | addTable e t => exact Act.moves_addTable hR e t
  | loadTable e t => exact Act.moves_loadTable hR e t
  | registerMembers e receiver ms => exact Act.moves_registerMembers hR e receiver ms
  | registerKind e k name => exact Act.moves_registerKind hR e k name
  | hook e => exact Act.moves_hook hR e
  | openBuilder e k => exact hdrop (Act.moves_openBuilder hR e k)
  | addMembers b ms => exact Act.moves_addMembers hR (hB b rfl) ms
  | nameType b name => exact Act.moves_nameType hR (hB b rfl) name
  | closeBuilder b => exact Act.moves_closeBuilder hR (hB b rfl)
  | configure c => exact fun s => hR.aside s _ _ _ _
  | build d => exact fun s => hheap rfl s _
  | wrap v => exact fun s => hheap rfl s _
  | clone a => exact fun s => hheap rfl s _
  | cast a k => exact hdrop fun s => Act.along_cast hR (hheap rfl s _)
  | call e name arguments => exact hdrop fun s => Act.along_call hR fun _ h _ => hheap rfl s h
  | invoke f arguments => exact hdrop fun s => Act.along_invoke hR fun _ h _ => hheap rfl s h
  | emit e channel arguments =>
    exact hdrop fun s => Act.along_emit hR (Act.along_call hR fun _ h _ => hheap rfl s h)

/-- **And so it holds across every run.** -/
theorem Host.after_along {R : Host → Host → Prop} (hR : Along anyBuilder R)
    (hheap : ∀ s h, R s { s with heap := h }) (s : Host) (cs : List Command) :
    R s (s.after cs) := by
  induction cs generalizing s with
  | nil => exact hR.refl s
  | cons c cs ih =>
    exact hR.trans (c.apply_along hR (fun _ _ => trivial) (fun _ => hheap) s) (ih _)

end ScriptHost
