import ScriptHost.Proofs.Host.Command
import Mathlib.Data.List.Forall2
import Mathlib.Data.List.Induction
import Mathlib.Data.List.Infix

/-!
# A builder is a delayed registration

A builder makes the function of a member when it is given the member, and registers it when it is
left.  In between anything may happen to the engine, and to other builders.  But what a function is
made of, the features of the engine and the limit on parameters, does not change, so it makes no
difference when the function is made, and leaving a builder does what registering the members it
has accepted would do at that moment.

* `Host.trace`, `Host.accepted`, `Host.lastName`: what a builder accepts during a run.
* `Command.onlyBuilders_apply`: describing a type changes builders and nothing else.
* `Host.Collecting`: the builder holds the functions that are made of the members accepted so far.
  `Collecting.apply` keeps it across one command, `Collecting.after` across a run; the commands that
  do not name the builder are dealt with by `Host.along_builder` all at once.
* `Act.registerAll_direct`: registering members directly registers the functions made of them.
* `Act.closeBuilder_of_collecting`: leaving the builder does the same.
* `Host.leaves_opened`: all of it for a builder that is opened and then left for the first time.
-/

namespace ScriptHost

/-! ## Runs, command by command -/

namespace Host

variable {s : Host}

/-- The commands of a run, each with the state in which it is performed. -/
def trace (s : Host) : List Command → List (Command × Host)
  | [] => []
  | c :: cs => (c, s) :: (c.apply s).trace cs

theorem trace_append (s : Host) (cs ds : List Command) :
    s.trace (cs ++ ds) = s.trace cs ++ (s.after cs).trace ds := by
  induction cs generalizing s with
  | nil => rfl
  | cons c cs ih => rw [List.cons_append, trace, ih, trace, after_cons, List.cons_append]

/-- The configuration is the same all along a run. -/
def Steady (s : Host) (cs : List Command) : Prop :=
  ∀ ds, ds <+: cs → (s.after ds).config = s.config

theorem Steady.left {cs ds : List Command} (h : s.Steady (cs ++ ds)) : s.Steady cs :=
  fun _ hcs => h _ (hcs.trans (List.prefix_append cs ds))

theorem Steady.config_after {cs : List Command} (h : s.Steady cs) :
    (s.after cs).config = s.config :=
  h cs (List.prefix_refl cs)

end Host

/-! ## What a builder accepts -/

/-- The members that a builder accepts of those it is given: all before the first that it
rejects. -/
def Act.taken (b : BuilderId) : List Member → Host → List Member
  | [], _ => []
  | m :: rest, s => match Act.addMember b m s with
    | (.ok _, s') => m :: taken b rest s'
    | (.error _, _) => []

namespace Command

/-- The members that a builder accepts of a command. -/
def accepted (b : BuilderId) (s : Host) : Command → List Member
  | .addMembers d ms => if d = b then Act.taken b ms s else []
  | _ => []

/-- The name that a builder accepts of a command. -/
def named (b : BuilderId) (s : Host) : Command → Option String
  | .nameType d name => match Act.nameType d name s with
    | (.ok _, _) => if d = b then some name else none
    | (.error _, _) => none
  | _ => none

/-- A builder accepts nothing of a command that does not name it. -/
theorem accepts_nothing {b : BuilderId} (c : Command) (s : Host) (hb : c.builder? ≠ some b) :
    c.accepted b s = [] ∧ c.named b s = none := by
  cases c with
  | addMembers d ms => exact ⟨if_neg fun hd => hb (congrArg some hd), rfl⟩
  | nameType d name =>
    refine ⟨rfl, ?_⟩
    rw [named]
    split
    · exact if_neg fun hd => hb (congrArg some hd)
    · rfl
  | _ => exact ⟨rfl, rfl⟩

/-- Commands that describe a type to a builder, or open one. -/
def describes : Command → Bool
  | .openBuilder .. | .addMembers .. | .nameType .. => true
  | _ => false

/-- Registering members of a type directly, one after another, and then the type itself. -/
def direct (e : EngineId) (k : Kind) (ms : List Member) (name : Option String) : List Command :=
  ms.map (fun m => .registerMembers e (some k) [m]) ++ [.registerKind e k name]

end Command

namespace Host

/-- The members that a builder accepts during a run, in order. -/
def accepted (b : BuilderId) (s : Host) (cs : List Command) : List Member :=
  (s.trace cs).flatMap fun p => p.1.accepted b p.2

/-- The last name that a builder accepts during a run. -/
def lastName (b : BuilderId) (s : Host) (cs : List Command) : Option String :=
  ((s.trace cs).filterMap fun p => p.1.named b p.2).getLast?

theorem accepted_concat (b : BuilderId) (s : Host) (cs : List Command) (c : Command) :
    s.accepted b (cs ++ [c]) = s.accepted b cs ++ c.accepted b (s.after cs) := by
  simp [accepted, trace_append, trace]

theorem lastName_concat (b : BuilderId) (s : Host) (cs : List Command) (c : Command) :
    s.lastName b (cs ++ [c]) = (c.named b (s.after cs)).or (s.lastName b cs) := by
  rw [lastName, trace_append, List.filterMap_append, lastName]
  cases hname : c.named b (s.after cs) with
  | none => simp [trace, hname]
  | some name => simp [trace, hname]

end Host

/-! ## Describing changes the builders only -/

namespace Host

/-- The states differ in their builders only. -/
def OnlyBuilders (s s' : Host) : Prop := s' = { s with builders := s'.builders }

theorem OnlyBuilders.trans {s s' s'' : Host} (h : s.OnlyBuilders s') (h' : s'.OnlyBuilders s'') :
    s.OnlyBuilders s'' := by
  rw [OnlyBuilders] at h h' ⊢
  rw [h', h]

end Host

namespace Act

theorem onlyBuilders_addMember (b : BuilderId) (m : Member) (s : Host) :
    s.OnlyBuilders (addMember b m s).2 := by
  rcases addMember_cases b m s with ⟨x, heq⟩ | ⟨state, f, -, -, -, heq⟩
  · rw [heq]
    rfl
  · rw [heq]
    rfl

theorem onlyBuilders_addMembers (b : BuilderId) (ms : List Member) (s : Host) :
    s.OnlyBuilders (addMembers b ms s).2 := by
  induction ms generalizing s with
  | nil => rfl
  | cons m rest ih =>
    have hfirst := onlyBuilders_addMember b m s
    rw [addMembers, bind_apply]
    revert hfirst
    rcases addMember b m s with ⟨x | _, s'⟩
    · exact id
    · exact fun hfirst => hfirst.trans (ih s')

theorem onlyBuilders_nameType (b : BuilderId) (name : String) (s : Host) :
    s.OnlyBuilders (nameType b name s).2 := by
  rcases nameType_cases b name s with ⟨x, heq⟩ | ⟨state, -, -, heq⟩
  · rw [heq]
    rfl
  · rw [heq]
    rfl

end Act

/-- **Opening a builder and describing a type changes nothing but builders**, whether the builder
accepts what it is given or not. -/
theorem Command.onlyBuilders_apply {c : Command} (hc : c.describes = true) (s : Host) :
    s.OnlyBuilders (c.apply s) := by
  cases c with
  | openBuilder e k => rfl
  | addMembers b ms => exact Act.onlyBuilders_addMembers b ms s
  | nameType b name => exact Act.onlyBuilders_nameType b name s
  | _ => exact absurd hc nofun

/-! ## What a builder has collected -/

/-- What the functions of a type are made with: the engine, its features and its own table, the
type, and the limit on parameters. -/
structure Workplace where
  engine : EngineId
  kind : Kind
  features : Features
  own : TableId
  limit : Except ConvertError Int

/-- The function is made of the member, under whatever verb it is asked for. -/
def Workplace.Makes (w : Workplace) (m : Member) (f : Native) : Prop :=
  (∀ verb, m.check verb w.features = .ok ()) ∧
    m.toNative ⟨w.limit, some w.engine, some w.kind⟩ = .ok f

theorem Member.check_of_check {m : Member} {verb : String} {fs : Features}
    (h : m.check verb fs = .ok ()) (verb' : String) : m.check verb' fs = .ok () := by
  rw [check] at h ⊢
  split
  · rfl
  · split
    · rfl
    · simp_all

namespace Host

variable {s s' : Host} {b : BuilderId} {w : Workplace} {ms : List Member} {name : Option String}

theorem builders_setBuilder_self {old : Builder} (h : s.builders[b]? = some old) (new : Builder) :
    (s.setBuilder b new).builders[b]? = some new :=
  Array.getElem?_setIfInBounds_self_of_lt (Array.getElem?_eq_some_iff.mp h).1

theorem builders_setBuilder_of_ne {d : BuilderId} (hd : d ≠ b) (new : Builder) :
    (s.setBuilder d new).builders[b]? = s.builders[b]? := by
  rw [setBuilder, Array.getElem?_setIfInBounds, if_neg hd]

/-- A builder that exists is not the one that is opened next. -/
theorem builders_push {state : Builder} (h : s.builders[b]? = some state) (new : Builder) :
    (s.builders.push new)[b]? = some state := by
  have hb : b < s.builders.size := (Array.getElem?_eq_some_iff.mp h).1
  rw [Array.getElem?_push, if_neg (Nat.ne_of_lt hb), h]

/-- The engine exists, has these features and keeps its functions in this table. -/
structure Runs (s : Host) (w : Workplace) : Prop where
  lt : w.engine < s.engines.size
  features : (s.engine w.engine).features = w.features
  own : (s.engine w.engine).own = w.own

/-- All else does not matter. -/
theorem Runs.of_engines_eq (h : s.Runs w) (hengines : s'.engines = s.engines) : s'.Runs w where
  lt := hengines ▸ h.lt
  features := by rw [engine, hengines]; exact h.features
  own := by rw [engine, hengines]; exact h.own

theorem Runs.setEngine (h : s.Runs w) {d : EngineId} {new : Engine}
    (hfeatures : new.features = (s.engine d).features) (hown : new.own = (s.engine d).own) :
    (s.setEngine d new).Runs w where
  lt := by
    rw [Host.setEngine, Array.size_setIfInBounds]
    exact h.lt
  features := by
    rw [engine_setEngine]
    split
    · rename_i hd
      rw [hfeatures, hd.1, h.features]
    · exact h.features
  own := by
    rw [engine_setEngine]
    split
    · rename_i hd
      rw [hown, hd.1, h.own]
    · exact h.own

/-- No operation takes an engine away, or gives it other features or another table. -/
theorem along_runs (w : Workplace) : Along anyBuilder fun s s' => s.Runs w → s'.Runs w where
  refl _ h := h
  trans h₁ h₂ h := h₂ (h₁ h)
  aside _ _ _ _ _ h := h.of_engines_eq rfl
  packed _ _ _ h := h.of_engines_eq rfl
  newTable _ _ h := h.of_engines_eq rfl
  entered _ _ _ _ h := h.of_engines_eq rfl
  frozen _ _ h := h.of_engines_eq rfl
  newEngine s fs name h := by
    have hsame : engine { s with engines := s.engines.push ⟨fs, s.tables.size, [], [], false⟩ }
        w.engine = s.engine w.engine := by
      rw [engine, engine, Array.getElem?_push, if_neg (Nat.ne_of_lt h.lt)]
    refine ⟨?_, hsame ▸ h.features, hsame ▸ h.own⟩
    rw [Array.size_push]
    exact Nat.lt_succ_of_lt h.lt
  loaded s d t h := h.setEngine rfl rfl
  named s d names hooked h := h.setEngine rfl rfl
  opened _ _ _ h := h.of_engines_eq rfl
  collected _ _ _ _ _ _ _ _ _ h := h.of_engines_eq rfl

/-- No operation changes a builder that exists, but those that name it. -/
theorem along_builder (b : BuilderId) : Along (· ≠ b) fun s s' =>
    ∀ state, s.builders[b]? = some state → s'.builders[b]? = some state where
  refl _ _ h := h
  trans h₁ h₂ state h := h₂ state (h₁ state h)
  aside _ _ _ _ _ _ h := h
  packed _ _ _ _ h := h
  newTable _ _ _ h := h
  entered _ _ _ _ _ h := h
  frozen _ _ _ h := h
  newEngine _ _ _ _ h := h
  loaded _ _ _ _ h := h
  named _ _ _ _ _ h := h
  opened _ _ _ _ h := builders_push h _
  collected _ _ _ hd _ _ _ _ _ _ h := (builders_setBuilder_of_ne hd _).trans h

/-- A builder is open and has collected the functions that are made of the members `ms`. -/
structure Collecting (s : Host) (b : BuilderId) (w : Workplace) (ms : List Member)
    (name : Option String) : Prop where
  runs : s.Runs w
  collected : ∃ natives, s.builders[b]? = some ⟨w.engine, w.kind, name, natives, false⟩ ∧
    List.Forall₂ w.Makes ms natives

theorem collecting_openBuilder {e : EngineId} (he : e < s.engines.size) (k : Kind) :
    (Act.openBuilder e k s).2.Collecting s.builders.size
      ⟨e, k, (s.engine e).features, (s.engine e).own, s.config.maxArity⟩ [] none where
  runs := ⟨he, rfl, rfl⟩
  collected := ⟨[], Array.getElem?_push_size, .nil⟩

end Host

namespace Act

variable {s s' : Host} {b : BuilderId} {w : Workplace} {ms : List Member} {name : Option String}

theorem makeMember_eq_ok_iff {verb : String} {m : Member} {f : Native} (hruns : s.Runs w)
    (hlimit : s.config.maxArity = w.limit) :
    makeMember w.engine verb (some w.kind) m s = (.ok f, s) ↔ w.Makes m f := by
  rw [makeMember_apply, Workplace.Makes, hruns.features, hlimit]
  cases hcheck : m.check verb w.features with
  | error x =>
    refine ⟨fun h => absurd (Prod.mk.inj h).1 nofun, fun ⟨hall, _⟩ => ?_⟩
    exact absurd (hcheck.symm.trans (hall verb)) nofun
  | ok _ =>
    constructor
    · intro h
      exact ⟨Member.check_of_check hcheck, (Prod.mk.inj h).1⟩
    · rintro ⟨-, hmade⟩
      rw [← hmade]
      rfl

/-- A builder that is collecting takes a member or leaves everything as it is. -/
theorem collecting_addMember (h : s.Collecting b w ms name)
    (hlimit : s.config.maxArity = w.limit) (m : Member) :
    (∃ x, addMember b m s = (.error x, s)) ∨
      ∃ s', addMember b m s = (.ok (), s') ∧ s'.config = s.config ∧
        s'.Collecting b w (ms ++ [m]) name := by
  rcases addMember_cases b m s with hrejected | ⟨state, f, hstate, hopen, hmake, heq⟩
  · exact .inl hrejected
  · obtain ⟨natives, hnatives, hmade⟩ := h.collected
    obtain rfl := Option.some.inj (hnatives.symm.trans hstate)
    have hf := (makeMember_eq_ok_iff h.runs hlimit).mp hmake
    exact .inr ⟨_, heq, rfl, h.runs.of_engines_eq rfl, natives ++ [f],
      Host.builders_setBuilder_self hnatives _, List.rel_append hmade (.cons hf .nil)⟩

theorem collecting_addMembers (h : s.Collecting b w ms name)
    (hlimit : s.config.maxArity = w.limit) (given : List Member) :
    (addMembers b given s).2.Collecting b w (ms ++ taken b given s) name := by
  induction given generalizing s ms with
  | nil =>
    rw [taken, List.append_nil]
    exact h
  | cons m rest ih =>
    rw [addMembers, bind_apply, taken]
    rcases collecting_addMember h hlimit m with ⟨x, heq⟩ | ⟨s', heq, hconfig, h'⟩
    · simp only [heq, List.append_nil]
      exact h
    · simp only [heq]
      have hrest := ih h' (hconfig ▸ hlimit)
      rwa [List.append_assoc] at hrest

theorem collecting_nameType (h : s.Collecting b w ms name) (given : String) :
    (nameType b given s).2.Collecting b w ms
      ((Command.named b s (.nameType b given)).or name) := by
  rw [Command.named]
  rcases nameType_cases b given s with ⟨x, heq⟩ | ⟨state, hstate, hopen, heq⟩
  · simp only [heq]
    exact h
  · obtain ⟨natives, hnatives, hmade⟩ := h.collected
    obtain rfl := Option.some.inj (hnatives.symm.trans hstate)
    simp only [heq, if_pos]
    exact ⟨h.runs.of_engines_eq rfl, natives, Host.builders_setBuilder_self hnatives _, hmade⟩

end Act

namespace Host

variable {s s' : Host} {b : BuilderId} {w : Workplace} {ms : List Member} {name : Option String}

/-- **A builder collects what it accepts**, until it is left. -/
theorem Collecting.apply (h : s.Collecting b w ms name) (hlimit : s.config.maxArity = w.limit)
    {c : Command} (hc : c ≠ .closeBuilder b) :
    (c.apply s).Collecting b w (ms ++ c.accepted b s) ((c.named b s).or name) := by
  by_cases hb : c.builder? = some b
  · cases c with
    | addMembers d given =>
      obtain rfl := Option.some.inj hb
      rw [Command.accepted, if_pos rfl]
      exact Act.collecting_addMembers h hlimit given
    | nameType d given =>
      obtain rfl := Option.some.inj hb
      have hname := Act.collecting_nameType h given
      rwa [← List.append_nil ms] at hname
    | closeBuilder d => exact absurd (Option.some.inj hb ▸ rfl) hc
    | _ => exact absurd hb nofun
  · obtain ⟨hmembers, hname⟩ := c.accepts_nothing s hb
    rw [hmembers, hname, List.append_nil, Option.none_or]
    have hother : ∀ d, c.builder? = some d → d ≠ b := fun d hd hdb => hb (hdb ▸ hd)
    obtain ⟨natives, hnatives, hmade⟩ := h.collected
    refine ⟨?_, natives, ?_, hmade⟩
    · exact c.apply_along (along_runs w) (fun _ _ => trivial)
        (fun _ _ _ h => h.of_engines_eq rfl) s h.runs
    · exact c.apply_along (along_builder b) hother (fun _ _ _ _ h => h) s _ hnatives

theorem Collecting.after (h : s.Collecting b w [] none) {cs : List Command}
    (hlimit : s.config.maxArity = w.limit) (hsteady : s.Steady cs)
    (hopen : .closeBuilder b ∉ cs) :
    (s.after cs).Collecting b w (s.accepted b cs) (s.lastName b cs) := by
  induction cs using List.reverseRecOn with
  | nil => exact h
  | append_singleton cs c ih =>
    have hcs := ih hsteady.left fun hmem => hopen (List.mem_append_left _ hmem)
    rw [after_append, accepted_concat, lastName_concat]
    refine hcs.apply ?_ fun hc => hopen ?_
    · rw [hsteady.left.config_after, hlimit]
    · rw [hc]
      exact List.mem_append_right _ List.mem_cons_self

end Host

/-! ## Registering what has been collected -/

namespace Act

variable {s : Host} {b : BuilderId} {t : TableId} {w : Workplace} {ms : List Member}
  {name : Option String} {fs : List Native}

/-- Registering a function in an open table leaves the table open, and engines and configuration as
they are. -/
theorem register_ok (hopen : (s.table t).frozen = false) (f : Native) :
    ∃ s', register t f s = (.ok (), s') ∧ (s'.table t).frozen = false ∧ s'.engines = s.engines ∧
      s'.config = s.config ∧ ∀ bs, register t f { s with builders := bs } =
        (.ok (), { s' with builders := bs }) := by
  refine ⟨_, register_of_open hopen, ?_, rfl, rfl, fun bs => register_of_open hopen⟩
  rw [Host.table_setTable]
  split_ifs <;> exact hopen

theorem registerAll_ok (hopen : (s.table t).frozen = false) (fs : List Native) :
    ∃ s', registerAll t fs s = (.ok (), s') ∧ s'.engines = s.engines ∧
      ∀ bs, registerAll t fs { s with builders := bs } = (.ok (), { s' with builders := bs }) := by
  induction fs generalizing s with
  | nil => exact ⟨s, rfl, rfl, fun _ => rfl⟩
  | cons f rest ih =>
    obtain ⟨s₁, hfirst, hopen₁, hengines, -, hblind⟩ := register_ok hopen f
    obtain ⟨s₂, hrest, hengines', hblind'⟩ := ih hopen₁
    refine ⟨s₂, ?_, hengines'.trans hengines, fun bs => ?_⟩
    · rw [registerAll, bind_apply, hfirst]
      exact hrest
    · rw [registerAll, bind_apply, hblind bs]
      exact hblind' bs

/-- **Registering the members of a type one by one registers the functions made of them**, and
succeeds each time. -/
theorem registerAll_direct (name : Option String) (hruns : s.Runs w)
    (hlimit : s.config.maxArity = w.limit) (hopen : (s.table w.own).frozen = false)
    (hmade : List.Forall₂ w.Makes ms fs) :
    (∀ p ∈ s.trace (Command.direct w.engine w.kind ms name), (p.1.perform p.2).1 = .ok ()) ∧
      s.after (Command.direct w.engine w.kind ms name) =
        (registerKind w.engine w.kind name (registerAll w.own fs s).2).2 := by
  induction hmade generalizing s with
  | nil => exact ⟨fun p hp => by rw [List.mem_singleton.mp hp]; rfl, rfl⟩
  | @cons m f ms fs hf _ ih =>
    obtain ⟨s₁, hfirst, hopen₁, hengines, hconfig, -⟩ := register_ok hopen f
    have hperform :
        (Command.registerMembers w.engine (some w.kind) [m]).perform s = (.ok (), s₁) := by
      have hmake : makeMember w.engine "register" (some w.kind) m s = (.ok f, s) :=
        (makeMember_eq_ok_iff hruns hlimit).mpr hf
      rw [Command.perform, registerMembers, bind_apply, registerMember, bind_apply, hmake]
      simp only [ask_bind_apply, hruns.own, hfirst]
      rfl
    have happly : (Command.registerMembers w.engine (some w.kind) [m]).apply s = s₁ :=
      congrArg Prod.snd hperform
    obtain ⟨hok, hafter⟩ := ih (hruns.of_engines_eq hengines) (hconfig ▸ hlimit) hopen₁
    rw [Command.direct, List.map_cons, List.cons_append, ← Command.direct, Host.trace,
      Host.after_cons, happly, hafter, registerAll, bind_apply, hfirst]
    refine ⟨?_, rfl⟩
    exact List.forall_mem_cons.mpr ⟨congrArg Prod.fst hperform, hok⟩

/-- What is logged of a type that has been built. -/
def builtRecord (s : Host) (e : EngineId) (k : Kind) (members : Nat) : Record :=
  let name := (s.engine e).kindName k
  ⟨.info, builderLogger, s!"Built type {name} with {members} member(s)"⟩

theorem engine_setBuilder (s : Host) (b : BuilderId) (new : Builder) (e : EngineId) :
    (s.setBuilder b new).engine e = s.engine e := rfl

theorem setBuilder_bind_apply {β : Type} (b : BuilderId) (new : Builder) (a : Unit → Act β)
    (s : Host) : (setBuilder b new >>= a) s = a () (s.setBuilder b new) := rfl

theorem registerKind_bind_apply {β : Type} (e : EngineId) (k : Kind) (name : Option String)
    (a : Unit → Act β) (s : Host) :
    (registerKind e k name >>= a) s = a () (registerKind e k name s).2 := rfl

/-- What is left to do once the functions that a builder has collected are registered. -/
theorem closeBuilder_of_open {state : Builder} {s' : Host} (hstate : s.builders[b]? = some state)
    (hopen : state.finalized = false)
    (hall : registerAll (s.engine state.engine).own state.pending
      (s.setBuilder b { state with finalized := true }) = (.ok (), s')) :
    closeBuilder b s = (.ok (), (log .info builderLogger
      (builtRecord (registerKind state.engine state.kind state.name s').2 state.engine state.kind
        state.pending.length).text (registerKind state.engine state.kind state.name s').2).2) := by
  have hnot : ¬ state.finalized = true := by simp [hopen]
  rw [closeBuilder, builder, ask_bind_apply, hstate, Option.getD_some, if_neg hnot,
    setBuilder_bind_apply, ask_bind_apply, engine_setBuilder, bind_apply, hall]
  simp only [registerKind_bind_apply, ask_bind_apply]
  rfl

/-- A builder that is left for the first time does what registering its members and its type one by
one does, closes, and logs what it has built. -/
theorem closeBuilder_of_collecting (h : s.Collecting b w ms name)
    (hlimit : s.config.maxArity = w.limit) (hopen : (s.table w.own).frozen = false) :
    let registered := s.after (Command.direct w.engine w.kind ms name)
    ∃ state, s.builders[b]? = some state ∧ closeBuilder b s = (.ok (),
      { registered with
        builders := s.builders.setIfInBounds b { state with finalized := true }
        log := registered.log ++ [builtRecord registered w.engine w.kind ms.length] }) := by
  obtain ⟨natives, hnatives, hmade⟩ := h.collected
  obtain ⟨s', hall, hengines, hblind⟩ := registerAll_ok hopen natives
  have hdirect := (registerAll_direct name h.runs hlimit hopen hmade).2
  rw [hall] at hdirect
  have hclose := closeBuilder_of_open hnatives rfl (h.runs.own.symm ▸ hblind _)
  refine ⟨_, hnatives, hclose.trans ?_⟩
  rw [hdirect, hmade.length_eq]
  rfl

/-- A builder that is closed stays as it is when it is left. -/
theorem closeBuilder_of_finalized {state : Builder} (hstate : s.builders[b]? = some state)
    (hclosed : state.finalized = true) : closeBuilder b s = (.ok (), s) := by
  rw [closeBuilder, builder, ask_bind_apply, hstate, Option.getD_some, if_pos hclosed]
  rfl

/-- A scope that is left without a failure of its own passes on how it ended. -/
theorem within_of_closeBuilder {α : Type} {inner : Act α} {s₀ s' : Host} (hinner : (inner s₀).2 = s)
    (hclose : closeBuilder b s = (.ok (), s')) : within b inner s₀ = ((inner s₀).1, s') := by
  rw [within]
  revert hinner
  rcases inner s₀ with ⟨x | a, s₁⟩
  · rintro rfl
    simp only [hclose]
  · rintro rfl
    simp only [hclose]

end Act

namespace Host

/-- A builder that is closed stays closed, and nothing is added to it. -/
theorem along_finalized (b : BuilderId) : Along anyBuilder fun s s' =>
    ∀ state, s.builders[b]? = some state → state.finalized = true →
      s'.builders[b]? = some state where
  refl _ _ h _ := h
  trans h₁ h₂ state h hclosed := h₂ state (h₁ state h hclosed) hclosed
  aside _ _ _ _ _ _ h _ := h
  packed _ _ _ _ h _ := h
  newTable _ _ _ h _ := h
  entered _ _ _ _ _ h _ := h
  frozen _ _ _ h _ := h
  newEngine _ _ _ _ h _ := h
  loaded _ _ _ _ h _ := h
  named _ _ _ _ _ h _ := h
  opened _ _ _ _ h _ := builders_push h _
  collected s d _ _ hd hopen _ _ _ state h hclosed := by
    have hdb : d ≠ b := by
      rintro rfl
      rw [Option.some.inj (hd.symm.trans h), hclosed] at hopen
      exact absurd hopen nofun
    rw [builders_setBuilder_of_ne hdb, h]

/-- Leaving a builder that has been left before does nothing, whatever has happened in between. -/
theorem closeBuilder_again {s : Host} {b : BuilderId} {state : Builder}
    (hstate : s.builders[b]? = some state) (hclosed : state.finalized = true) (cs : List Command) :
    Act.closeBuilder b (s.after cs) = (.ok (), s.after cs) := by
  have hlater := after_along (along_finalized b) (fun _ _ _ h _ => h) s cs state hstate hclosed
  exact Act.closeBuilder_of_finalized hlater hclosed

/-- What leaving the builder `b` does that is open in the state `s`, in a scope that was entered in
the state `s₀`: the builder is closed, what has been built is logged, and all else is as after
registering the members `ms` of the type `k` and the type itself directly. -/
structure Leaves (s₀ s : Host) (b : BuilderId) (e : EngineId) (k : Kind) (ms : List Member)
    (name : Option String) (t : Host) : Prop where
  /-- Every one of the registrations succeeds … -/
  succeed : ∀ p ∈ s.trace (Command.direct e k ms name), (p.1.perform p.2).1 = .ok ()
  /-- … and tables, engines and everything else are as they leave them. -/
  direct : t = { s.after (Command.direct e k ms name) with
    builders := t.builders
    log := (s.after (Command.direct e k ms name)).log ++
      [Act.builtRecord (s.after (Command.direct e k ms name)) e k ms.length] }
  closed : ∃ state, s.builders[b]? = some state ∧
    t.builders = s.builders.setIfInBounds b { state with finalized := true }
  left : Act.closeBuilder b s = (.ok (), t)
  /-- However a scope gets to the state, it ends as it would have ended without the builder. -/
  passed : ∀ {α : Type} (inner : Act α), (inner s₀).2 = s →
    Act.within b inner s₀ = ((inner s₀).1, t)
  /-- Leaving it another time, whatever has happened in between, does nothing. -/
  again : ∀ ds, Act.closeBuilder b (t.after ds) = (.ok (), t.after ds)

/-- **A builder is a delayed registration.**  Opening a builder and giving members and names to any
builder changes nothing but builders.  And leaving a builder for the first time registers the
members that it has accepted in a run, in order, and then its type under the last name that it has
accepted, as if they were registered directly at that moment; other builders may have been opened,
filled and left during the run, and other registrations made. -/
theorem leaves_opened {s : Host} {e : EngineId} (he : e < s.engines.size) (k : Kind)
    {cs : List Command} (hsteady : (Act.openBuilder e k s).2.Steady cs)
    (hopen : .closeBuilder s.builders.size ∉ cs)
    (hfrozen : (((Act.openBuilder e k s).2.after cs).table (s.engine e).own).frozen = false) :
    (∀ (c : Command) (t : Host), c.describes = true → t.OnlyBuilders (c.apply t)) ∧
      ∃ t, Leaves (Act.openBuilder e k s).2 ((Act.openBuilder e k s).2.after cs) s.builders.size e k
        ((Act.openBuilder e k s).2.accepted s.builders.size cs)
        ((Act.openBuilder e k s).2.lastName s.builders.size cs) t := by
  refine ⟨fun c t hc => c.onlyBuilders_apply hc t, ?_⟩
  have hcollecting := (collecting_openBuilder he k).after rfl hsteady hopen
  have hlimit := congrArg Config.maxArity hsteady.config_after
  obtain ⟨state, hstate, hclose⟩ := Act.closeBuilder_of_collecting hcollecting hlimit hfrozen
  obtain ⟨natives, -, hmade⟩ := hcollecting.collected
  exact ⟨_, (Act.registerAll_direct _ hcollecting.runs hlimit hfrozen hmade).1, rfl,
    ⟨state, hstate, rfl⟩, hclose, fun inner hinner => Act.within_of_closeBuilder hinner hclose,
    closeBuilder_again (builders_setBuilder_self hstate _) rfl⟩

/-- Reading a property, with as many parameters as reading takes. -/
def xGetter : Member :=
  ⟨.inl (.getter "x"), false,
    .function ⟨[⟨"self", none, .positional, false⟩], none,
      [.give (.apply (.field "x") [.argument 0])], .usual⟩, []⟩

/-- Writing a property, with a parameter too few. -/
def xSetter : Member :=
  ⟨.inl (.setter "x"), false,
    .function ⟨[⟨"self", none, .positional, false⟩], none, [], .usual⟩, []⟩

/-- A host with an engine. -/
def oneEngine : Host := Host.initial.after [.newEngine (some .all) false]

/-- The host in the scope of a builder. -/
def inScope : Host := (Act.openBuilder 0 (.object "Point") oneEngine).2

/-- Describing a point, with another type described in between. -/
def describePoint : List Command :=
  [.nameType 0 "Point", .openBuilder 0 (.object "Line"), .addMembers 0 [xGetter, xSetter],
   .closeBuilder 1, .nameType 0 "Vector"]

theorem leaves_describePoint :
    inScope.accepted 0 describePoint = [xGetter] ∧
      inScope.lastName 0 describePoint = some "Vector" ∧
      ∃ t, Leaves inScope (inScope.after describePoint) 0 0 (.object "Point") [xGetter]
        (some "Vector") t := by
  have haccepted : inScope.accepted 0 describePoint = [xGetter] := rfl
  have hname : inScope.lastName 0 describePoint = some "Vector" := by decide +kernel
  have hsteady : inScope.Steady describePoint := by
    intro ds hds
    rw [← List.mem_inits] at hds
    simp only [describePoint, List.inits, List.map_cons, List.map_nil, List.mem_cons,
      List.not_mem_nil, or_false] at hds
    rcases hds with rfl | rfl | rfl | rfl | rfl | rfl <;> rfl
  have hopen : Command.closeBuilder 0 ∉ describePoint := by
    simp [describePoint]
  have hfrozen : ((inScope.after describePoint).table (oneEngine.engine 0).own).frozen = false := by
    decide +kernel
  have hleaves := (leaves_opened (by decide) (.object "Point") hsteady hopen hfrozen).2
  exact ⟨haccepted, hname, haccepted ▸ hname ▸ hleaves⟩

end Host
end ScriptHost
