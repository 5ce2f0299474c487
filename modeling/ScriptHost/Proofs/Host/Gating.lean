import ScriptHost.Proofs.Host.Engines
import ScriptHost.Proofs.Package.Texts

/-!
# Accessors that the features leave out

Without maps of objects an engine has no properties, and without these and arrays no indexing.
Every way to register an accessor asks for the feature first, on the engine and on a builder, so an
accessor that is left out never becomes a function: not in the table of the engine, and not among
what a builder will register later.  Functions that are registered under a name of their own could
pass for accessors, so their names have to keep away from the marks.

* `Features.bars`: the names that are left out; `Accessor.isSome_missing?`: those of the accessors
  that miss a feature.
* `Command.KeepsNames`: what is asked of the commands of a run.
* `Host.Barred`: nothing that an engine has registered, or a builder has collected for it, has a
  name that is left out; `Barred.apply`, `barred_after`: and so it stays.
* `gated_after`: the gates hold in every state of every such run.
-/

namespace ScriptHost

/-! ## Names of accessors -/

namespace Accessor

/-- Whether a name starts with a mark. -/
def isMarked (mark name : String) : Bool := mark.toList.isPrefixOf name.toList

/-- Whether a name is that of reading or writing a property. -/
def namesProperty (name : String) : Bool := isMarked getterMark name || isMarked setterMark name

/-- Whether a name is that of reading or writing an item. -/
def namesItem (name : String) : Bool := name == indexGetterName || name == indexSetterName

/-- The mark of functions on items. -/
def indexMark : String := "index$"

/-- Whether a name starts with the mark of some accessor. -/
def isReserved (name : String) : Bool := namesProperty name || isMarked indexMark name

theorem isMarked_append (mark name : String) : isMarked mark (mark ++ name) = true := by
  rw [isMarked, String.toList_append, List.isPrefixOf_iff_prefix]
  exact List.prefix_append _ _

theorem isReserved_of_namesItem {name : String} (h : namesItem name = true) :
    isReserved name = true := by
  rw [namesItem, Bool.or_eq_true, beq_iff_eq, beq_iff_eq] at h
  rcases h with rfl | rfl <;> decide

end Accessor

/-- The names that the features leave out: those of properties without maps of objects, and those
of items without these and arrays. -/
def Features.bars (fs : Features) (name : String) : Bool :=
  !fs.has .objectMaps &&
    (Accessor.namesProperty name || !fs.has .arrays && Accessor.namesItem name)

theorem Features.bars_of_not_reserved (fs : Features) {name : String}
    (h : Accessor.isReserved name = false) : fs.bars name = false := by
  have hitem : Accessor.namesItem name = false := by
    rw [← Bool.not_eq_true]
    intro hitem
    exact Bool.false_ne_true (h.symm.trans (Accessor.isReserved_of_namesItem hitem))
  rw [Accessor.isReserved, Bool.or_eq_false_iff] at h
  rw [bars, h.1, hitem, Bool.and_false, Bool.or_false, Bool.and_false]

/-- **The features bar the name of an accessor just if the accessor misses one.** -/
theorem Accessor.isSome_missing? (fs : Features) (a : Accessor) :
    (a.missing? fs).isSome = fs.bars a.functionName := by
  have hgetter (name : String) : namesProperty (getterMark ++ name) = true := by
    rw [namesProperty, isMarked_append, Bool.true_or]
  have hsetter (name : String) : namesProperty (setterMark ++ name) = true := by
    rw [namesProperty, isMarked_append, Bool.or_true]
  have hitems : namesProperty indexGetterName = false ∧ namesProperty indexSetterName = false ∧
      namesItem indexGetterName = true ∧ namesItem indexSetterName = true := by decide
  rw [Features.bars]
  cases a with
  | getter name =>
    cases hmaps : fs.has .objectMaps <;> simp [missing?, functionName, hmaps, hgetter]
  | setter name =>
    cases hmaps : fs.has .objectMaps <;> simp [missing?, functionName, hmaps, hsetter]
  | indexGetter =>
    cases hmaps : fs.has .objectMaps <;> cases harrays : fs.has .arrays <;>
      simp [missing?, functionName, hmaps, harrays, hitems]
  | indexSetter =>
    cases hmaps : fs.has .objectMaps <;> cases harrays : fs.has .arrays <;>
      simp [missing?, functionName, hmaps, harrays, hitems]

/-- The feature that an accessor misses is off. -/
theorem Accessor.not_has_of_missing {fs : Features} {a : Accessor} {f : Feature}
    (h : a.missing? fs = some f) : fs.has f = false := by
  rw [← Bool.not_eq_true]
  intro hf
  cases a <;> simp only [missing?] at h <;> split at h <;> simp_all

namespace Member

/-- The name that the function of a member is registered under. -/
def functionName (m : Member) : String :=
  match m.role with
  | .inl a => a.functionName
  | .inr name => name

/-- A plain function has a name that no accessor could have. -/
def IsPlain (m : Member) : Prop := ∀ name, m.role = .inr name → Accessor.isReserved name = false

/-- The operation that registers an accessor, by a verb. -/
def operation (m : Member) (a : Accessor) (verb : String) : String :=
  verb ++ "_" ++ a.word ++ if m.fallible then "_result" else ""

theorem name_of_toNative {m : Member} {site : Site} {f : Native} (hf : m.toNative site = .ok f) :
    f.name = m.functionName := by
  rw [toNative] at hf
  rw [functionName]
  split at hf
  · rename_i name hrole
    rw [hrole]
    exact Native.name_of_ofHost hf
  · rename_i a hrole
    obtain ⟨g, hmade, harity⟩ := Except.bind_eq_ok.mp hf
    obtain ⟨rfl, -⟩ := Native.withArity_eq_ok.mp harity
    rw [hrole]
    exact Native.name_of_ofHost hmade

/-- **What the features allow has no name that they bar.** -/
theorem not_bars_of_check {m : Member} {verb : String} {fs : Features}
    (hcheck : m.check verb fs = .ok ()) (hplain : m.IsPlain) : fs.bars m.functionName = false := by
  rw [check] at hcheck
  rw [functionName]
  cases hrole : m.role with
  | inr name => exact fs.bars_of_not_reserved (hplain name hrole)
  | inl a =>
    rw [hrole] at hcheck
    dsimp only at hcheck ⊢
    rw [← Accessor.isSome_missing?]
    cases hmissing : a.missing? fs with
    | none => rfl
    | some f =>
      rw [hmissing] at hcheck
      cases hcheck

/-- **An accessor that the features leave out is refused**, for a feature that is off. -/
theorem exists_disabled {m : Member} {a : Accessor} {fs : Features} (hrole : m.role = .inl a)
    (hbars : fs.bars a.functionName = true) : ∃ f, fs.has f = false ∧
      ∀ verb, m.check verb fs = .error (.disabled (m.operation a verb) f) := by
  rw [← Accessor.isSome_missing?] at hbars
  obtain ⟨f, hf⟩ := Option.isSome_iff_exists.mp hbars
  refine ⟨f, Accessor.not_has_of_missing hf, fun verb => ?_⟩
  rw [check, hrole]
  dsimp only
  rw [hf]
  rfl

end Member

/-! ## Commands -/

namespace Command

/-- The table that a command writes by itself. -/
def target? : Command → Option TableId
  | .register t _ | .enter t _ _ | .merge t _ | .populate _ t _ => some t
  | _ => none

/-- The engine that a command registers members on, or that its builder is for. -/
def engine? (s : Host) : Command → Option EngineId
  | .registerMembers e _ _ => some e
  | .addMembers b _ | .closeBuilder b => s.builders[b]?.map (·.engine)
  | _ => none

/-- The members that a command gives to an engine or to a builder. -/
def members : Command → List Member
  | .registerMembers _ _ ms | .addMembers _ ms => ms
  | _ => []

/-- The own table of the engine gets members only, and those that are plain functions keep away from
the names of accessors.  Members are given to engines that are there. -/
structure KeepsNames (s : Host) (e : EngineId) (c : Command) : Prop where
  direct : e < s.engines.size → c.target? ≠ some (s.engine e).own
  there : ∀ d, c.engine? s = some d → d < s.engines.size
  plain : c.engine? s = some e → ∀ m ∈ c.members, m.IsPlain

/-- A command that neither writes a table nor gives members to an engine may come at any time. -/
theorem keepsNames_of_none {s : Host} {e : EngineId} {c : Command} (htarget : c.target? = none)
    (hengine : c.engine? s = none) : c.KeepsNames s e where
  direct _ h := Option.some_ne_none _ (h.symm.trans htarget)
  there d hd := absurd (hd.symm.trans hengine) (Option.some_ne_none d)
  plain h := absurd (h.symm.trans hengine) (Option.some_ne_none e)

end Command

/-- What is made of a list is made of one of its entries. -/
theorem mem_makeable {α : Type} {make : α → Except Failure Native} {xs : List α} {f : Native}
    (h : f ∈ makeable make xs) : ∃ x ∈ xs, make x = .ok f := by
  induction xs with
  | nil => exact absurd h List.not_mem_nil
  | cons x rest ih =>
    rw [makeable] at h
    split at h
    · rename_i g hmade
      rcases List.mem_cons.mp h with rfl | h
      · exact ⟨x, List.mem_cons_self, hmade⟩
      · obtain ⟨y, hy, hyf⟩ := ih h
        exact ⟨y, List.mem_cons_of_mem x hy, hyf⟩
    · exact absurd h List.not_mem_nil

namespace Table

theorem mem_of_mem_insertOverload {f g : Native} {fs : List Native}
    (h : g ∈ insertOverload f fs) : g = f ∨ g ∈ fs := by
  induction fs with
  | nil => exact .inl (List.mem_singleton.mp h)
  | cons x rest ih =>
    rw [insertOverload] at h
    split at h
    · split at h
      · exact (List.mem_cons.mp h).imp_right (List.mem_cons_of_mem x)
      · rcases List.mem_cons.mp h with rfl | h
        · exact .inr List.mem_cons_self
        · exact (ih h).imp_right (List.mem_cons_of_mem x)
    · exact List.mem_cons.mp h

theorem mem_of_mem_insert {f g : Native} {fs : List Native} (h : g ∈ insert f fs) :
    g = f ∨ g ∈ fs := by
  induction fs with
  | nil => exact .inl (List.mem_singleton.mp h)
  | cons x rest ih =>
    rw [insert] at h
    split at h
    · exact mem_of_mem_insertOverload h
    · rcases List.mem_cons.mp h with rfl | h
      · exact .inr List.mem_cons_self
      · exact (ih h).imp_right (List.mem_cons_of_mem x)

/-- A table holds nothing but what it held and what has been entered. -/
theorem mem_of_mem_enteredInto {g : Native} {fs ws : List Native} (h : g ∈ enteredInto fs ws) :
    g ∈ fs ∨ g ∈ ws := by
  induction ws generalizing fs with
  | nil => exact .inl h
  | cons f rest ih =>
    rcases ih h with h | h
    · rcases mem_of_mem_insert h with rfl | h
      · exact .inr List.mem_cons_self
      · exact .inl h
    · exact .inr (List.mem_cons_of_mem f h)

end Table

/-! ## What builders have collected -/

namespace Host

variable {s s' : Host} {e : EngineId} {b : BuilderId}

/-- A builder has collected nothing, or what it had collected for the same engine before. -/
def KeepsPending (b : BuilderId) (s s' : Host) : Prop :=
  ∀ state, s'.builders[b]? = some state → state.pending = [] ∨
    ∃ old, s.builders[b]? = some old ∧ old.engine = state.engine ∧ old.pending = state.pending

theorem keepsPending_of_eq (h : s'.builders = s.builders) : s.KeepsPending b s' :=
  fun state hstate => .inr ⟨state, h ▸ hstate, rfl, rfl⟩

theorem KeepsPending.trans {s'' : Host} (h : s.KeepsPending b s') (h' : s'.KeepsPending b s'') :
    s.KeepsPending b s'' := by
  intro state hstate
  rcases h' state hstate with hnil | ⟨old, hold, hengine, hpending⟩
  · exact .inl hnil
  · rw [← hengine, ← hpending]
    exact h old hold

theorem keepsPending_setBuilder {d : BuilderId} {old new : Builder}
    (hold : s.builders[d]? = some old) (hengine : old.engine = new.engine)
    (hpending : old.pending = new.pending) : s.KeepsPending b (s.setBuilder d new) := by
  intro state hstate
  by_cases hd : d = b
  · subst hd
    rw [builders_setBuilder_self hold, Option.some.injEq] at hstate
    exact .inr ⟨old, hold, hstate ▸ hengine, hstate ▸ hpending⟩
  · rw [builders_setBuilder_of_ne hd] at hstate
    exact .inr ⟨state, hstate, rfl, rfl⟩

theorem along_keepsPending (b : BuilderId) : Along (· ≠ b) (KeepsPending b) where
  refl _ := keepsPending_of_eq rfl
  trans := .trans
  aside _ _ _ _ _ := keepsPending_of_eq rfl
  packed _ _ _ := keepsPending_of_eq rfl
  newTable _ _ := keepsPending_of_eq rfl
  entered _ _ _ _ := keepsPending_of_eq rfl
  frozen _ _ := keepsPending_of_eq rfl
  newEngine _ _ _ := keepsPending_of_eq rfl
  loaded _ _ _ := keepsPending_of_eq rfl
  named _ _ _ _ := keepsPending_of_eq rfl
  opened s e k := by
    intro state hstate
    rw [Array.getElem?_push] at hstate
    split at hstate
    · rw [← Option.some.inj hstate]
      exact .inl rfl
    · exact .inr ⟨state, hstate, rfl, rfl⟩
  collected s d old hd _ _ _ _ _ := by
    intro state hstate
    rw [builders_setBuilder_of_ne hd] at hstate
    exact .inr ⟨state, hstate, rfl, rfl⟩

end Host

namespace Act

variable {s : Host} {b : BuilderId}

theorem keepsPending_closeBuilder (b : BuilderId) (s : Host) :
    s.KeepsPending b (closeBuilder b s).2 := by
  rw [closeBuilder, builder, ask_bind_apply]
  generalize hstate : s.builders[b]?.getD _ = state
  cases hopen : state.finalized with
  | true =>
    rw [if_pos rfl]
    exact Host.keepsPending_of_eq rfl
  | false =>
    rw [if_neg Bool.false_ne_true]
    have hfound := builder_of_not_finalized hstate hopen
    have hclosed : s.KeepsPending b (s.setBuilder b { state with finalized := true }) :=
      Host.keepsPending_setBuilder hfound rfl rfl
    -- what follows is about other parts of the host
    have hR := Host.along_keepsPending b
    exact moves_bind_at hR hclosed fun _ => (moves_ask hR _).bind hR fun _ =>
      (moves_registerAll hR _ _).bind hR fun _ => (moves_registerKind hR _ _ _).bind hR fun _ =>
        (moves_ask hR _).bind hR fun _ => moves_log hR _ _ _

end Act

namespace Host

variable {s s' : Host} {e : EngineId} {b : BuilderId}

/-- **A builder collects only what it is given.** -/
theorem keepsPending_apply {c : Command} (hc : ∀ ms, c ≠ .addMembers b ms) (s : Host) :
    s.KeepsPending b (c.apply s) := by
  by_cases hb : c.builder? = some b
  · cases c with
    | addMembers d ms =>
      obtain rfl := Option.some.inj hb
      exact absurd rfl (hc ms)
    | nameType d name =>
      obtain rfl := Option.some.inj hb
      rw [Command.apply, Command.perform]
      rcases Act.nameType_cases d name s with ⟨x, heq⟩ | ⟨state, hstate, hopen, heq⟩
      · rw [heq]
        exact keepsPending_of_eq rfl
      · rw [heq]
        exact keepsPending_setBuilder hstate rfl rfl
    | closeBuilder d =>
      obtain rfl := Option.some.inj hb
      exact Act.keepsPending_closeBuilder d s
    | _ => exact absurd hb.symm (Option.some_ne_none b)
  · exact c.apply_along (along_keepsPending b) (fun d hd hdb => hb (hdb ▸ hd))
      (fun _ _ _ => keepsPending_of_eq rfl) s

/-! ## Nothing that is left out gets in -/

/-- Nothing has a name that the features of the engine leave out: neither what the engine has
registered nor what a builder has collected for it. -/
structure Barred (s : Host) (e : EngineId) : Prop where
  registered : e < s.engines.size → ∀ f ∈ (s.table (s.engine e).own).functions,
    (s.engine e).features.bars f.name = false
  collected : ∀ (b : BuilderId) (state : Builder), s.builders[b]? = some state →
    state.engine = e → ∀ f ∈ state.pending,
      e < s.engines.size ∧ (s.engine e).features.bars f.name = false

/-- The functions that are made of members have names that are not left out. -/
theorem not_bars_of_mem_makeMembers {receiver : Option Kind} {ms : List Member}
    (hplain : ∀ m ∈ ms, m.IsPlain) {f : Native} (hf : f ∈ s.makeMembers e receiver ms) :
    (s.engine e).features.bars f.name = false := by
  obtain ⟨m, hm, hmade⟩ := mem_makeable hf
  obtain ⟨_, hcheck, hnative⟩ := Except.bind_eq_ok.mp hmade
  rw [Member.name_of_toNative hnative]
  exact Member.not_bars_of_check hcheck (hplain m hm)

/-- **What a command offers to the own table of an engine is not left out.** -/
theorem Barred.offers (h : s.Barred e) (hown : s.OwnTables) (he : e < s.engines.size) {c : Command}
    (hc : c.KeepsNames s e) {fs : List Native}
    (hoffers : c.offers s = some ((s.engine e).own, fs)) :
    ∀ f ∈ fs, (s.engine e).features.bars f.name = false := by
  have hdirect := hc.direct he
  have hlt := hown.lt e he
  cases c with
  | register t f =>
    exact absurd (congrArg some (Prod.mk.inj (Option.some.inj hoffers)).1) hdirect
  | enter t home x =>
    exact absurd (congrArg some (Prod.mk.inj (Option.some.inj hoffers)).1) hdirect
  | merge t u =>
    exact absurd (congrArg some (Prod.mk.inj (Option.some.inj hoffers)).1) hdirect
  | populate id t home =>
    obtain ⟨p, -, hoffer⟩ := Option.map_eq_some_iff.mp hoffers
    exact absurd (congrArg some (Prod.mk.inj hoffer).1) hdirect
  | buildPackage p given home =>
    obtain ⟨_, -, hoffer⟩ := Option.map_eq_some_iff.mp hoffers
    exact absurd (Prod.mk.inj hoffer).1 hlt.ne'
  | newEngine given withStrings =>
    cases withStrings with
    | false => exact absurd hoffers.symm (Option.some_ne_none _)
    | true =>
      obtain ⟨_, -, hoffer⟩ := Option.map_eq_some_iff.mp hoffers
      exact absurd (Prod.mk.inj hoffer).1 (Nat.lt_succ_of_lt hlt).ne'
  | registerMembers d receiver ms =>
    obtain ⟨htable, rfl⟩ := Prod.mk.inj (Option.some.inj hoffers)
    obtain rfl : d = e := hown.inj d (hc.there d rfl) e he htable
    exact fun f hf => not_bars_of_mem_makeMembers (hc.plain rfl) hf
  | closeBuilder b =>
    obtain ⟨state, hstate, hoffer⟩ := Option.bind_eq_some_iff.mp hoffers
    have hthere : state.engine < s.engines.size := hc.there _ (by rw [Command.engine?, hstate]; rfl)
    split at hoffer
    · exact absurd hoffer.symm (Option.some_ne_none _)
    · obtain ⟨htable, rfl⟩ := Prod.mk.inj (Option.some.inj hoffer)
      have hengine : state.engine = e := hown.inj _ hthere e he htable
      exact fun f hf => (h.collected b state hstate hengine f hf).2
  | _ => exact absurd hoffers.symm (Option.some_ne_none _)

/-- A builder that is given members collects functions that are not left out. -/
theorem Barred.addMembers (h : s.Barred e) {ms : List Member}
    (hms : ∀ state, s.builders[b]? = some state → state.engine = e →
      e < s.engines.size ∧ ∀ m ∈ ms, m.IsPlain) : (Act.addMembers b ms s).2.Barred e := by
  induction ms generalizing s with
  | nil => exact h
  | cons m rest ih =>
    rw [Act.addMembers, Act.bind_apply]
    rcases Act.addMember_cases b m s with ⟨x, heq⟩ | ⟨state, f, hstate, hopen, hmake, heq⟩
    · rw [heq]
      exact h
    · rw [heq]
      have hb := builders_setBuilder_self hstate { state with pending := state.pending ++ [f] }
      refine ih ⟨h.registered, fun d found hfound hengine g hg => ?_⟩ fun found hfound hengine => ?_
      · by_cases hd : b = d
        · subst hd
          obtain rfl := Option.some.inj (hb.symm.trans hfound)
          rcases List.mem_append.mp hg with hg | hg
          · exact h.collected b state hstate hengine g hg
          · obtain rfl := List.mem_singleton.mp hg
            obtain ⟨he, hplain⟩ := hms state hstate hengine
            rw [Act.makeMember_apply] at hmake
            obtain ⟨_, hcheck, hnative⟩ := Except.bind_eq_ok.mp (Prod.mk.inj hmake).1
            refine ⟨he, ?_⟩
            rw [Member.name_of_toNative hnative, ← hengine]
            exact Member.not_bars_of_check hcheck (hplain m List.mem_cons_self)
        · rw [builders_setBuilder_of_ne hd] at hfound
          exact h.collected d found hfound hengine g hg
      · obtain rfl := Option.some.inj (hb.symm.trans hfound)
        obtain ⟨he, hplain⟩ := hms state hstate hengine
        exact ⟨he, fun m hm => hplain m (List.mem_cons_of_mem _ hm)⟩

/-- No command gives an engine that is there other features or another table. -/
theorem runs_apply (c : Command) (he : e < s.engines.size) :
    e < (c.apply s).engines.size ∧ ((c.apply s).engine e).features = (s.engine e).features ∧
      ((c.apply s).engine e).own = (s.engine e).own := by
  have hruns : s.Runs ⟨e, .unit, (s.engine e).features, (s.engine e).own, .ok 0⟩ := ⟨he, rfl, rfl⟩
  have hafter := c.apply_along (along_runs _) (fun _ _ => trivial)
    (fun _ _ _ h => h.of_engines_eq rfl) s hruns
  exact ⟨hafter.lt, hafter.features, hafter.own⟩

/-- What a table takes is offered to it. -/
theorem mem_takes {offer : Option (TableId × List Native)} {t : TableId} {f : Native}
    (hf : f ∈ s.takes s' offer t) : ∃ fs, offer = some (t, fs) ∧ f ∈ fs := by
  cases offer with
  | none => exact absurd hf List.not_mem_nil
  | some o =>
    rw [takes] at hf
    split at hf
    · rename_i h
      exact ⟨o.2, by rw [← h.1], hf⟩
    · exact absurd hf List.not_mem_nil

/-- **No command gets in what the features leave out**, whether it succeeds or fails. -/
theorem Barred.apply (h : s.Barred e) (hown : s.OwnTables) {c : Command} (hc : c.KeepsNames s e) :
    (c.apply s).Barred e where
  registered he' f hf := by
    rw [serves_apply c s] at hf
    by_cases he : e < s.engines.size
    · obtain ⟨-, hfeatures, hsame⟩ := runs_apply c he
      rw [hsame] at hf
      rw [hfeatures]
      rcases Table.mem_of_mem_enteredInto hf with hf | hf
      · exact h.registered he f hf
      · obtain ⟨fs, hoffers, hf⟩ := mem_takes hf
        exact h.offers hown he hc hoffers f hf
    · -- the engine has just been made, and its table with it
      have hle := Nat.le_of_not_lt he
      have hmakes : ∃ given withStrings, c = .newEngine given withStrings := by
        by_contra hne
        refine he ((sameEngines_apply (fun given withStrings heq => ?_) s).size ▸ he')
        exact hne ⟨given, withStrings, heq⟩
      obtain ⟨given, withStrings, rfl⟩ := hmakes
      have hnew : (((Command.newEngine given withStrings).apply s).engine e).own =
          s.tables.size := by
        rw [Command.apply, Command.perform, Act.state_discard] at he' ⊢
        exact Act.own_newEngine given withStrings hle he'
      rw [hnew] at hf
      rcases Table.mem_of_mem_enteredInto hf with hf | hf
      · rw [table, Array.getElem?_eq_none (Nat.le_refl _)] at hf
        exact absurd hf List.not_mem_nil
      · obtain ⟨fs, hoffers, -⟩ := mem_takes hf
        cases withStrings with
        | false => exact absurd hoffers.symm (Option.some_ne_none _)
        | true =>
          obtain ⟨_, -, hoffer⟩ := Option.map_eq_some_iff.mp hoffers
          exact absurd (Prod.mk.inj hoffer).1 (Nat.succ_ne_self _)
  collected b state hstate hengine f hf := by
    suffices hbefore : e < s.engines.size ∧ (s.engine e).features.bars f.name = false by
      obtain ⟨hthere, hfeatures, -⟩ := runs_apply c hbefore.1
      exact ⟨hthere, hfeatures ▸ hbefore.2⟩
    by_cases hadds : ∃ ms, c = .addMembers b ms
    · obtain ⟨ms, rfl⟩ := hadds
      have hadded : (Act.addMembers b ms s).2.Barred e := h.addMembers fun old hold hengine => by
        have hnames : (Command.addMembers b ms).engine? s = some e := by
          rw [Command.engine?, hold, Option.map_some, hengine]
        exact ⟨hc.there e hnames, hc.plain hnames⟩
      have hfound := hadded.collected b state hstate hengine f hf
      have hsame := (sameTables_apply (c := .addMembers b ms) (.inl rfl) s).engines
      rw [engine, ← hsame]
      exact hfound
    · rcases keepsPending_apply (fun ms heq => hadds ⟨ms, heq⟩) s state hstate with
        hnil | ⟨old, hold, hsame, hpending⟩
      · rw [hnil] at hf
        exact absurd hf List.not_mem_nil
      · exact h.collected b old hold (hsame.trans hengine) f (hpending ▸ hf)

theorem barred_after (h : s.Barred e) (hown : s.OwnTables) {cs : List Command}
    (hcs : ∀ p ∈ s.trace cs, p.1.KeepsNames p.2 e) : (s.after cs).Barred e := by
  induction cs generalizing s with
  | nil => exact h
  | cons c cs ih =>
    obtain ⟨hc, hrest⟩ := List.forall_mem_cons.mp hcs
    have hown' : (c.apply s).OwnTables := c.apply_along along_ownTables (fun _ _ => trivial)
      (fun _ s _ h => h.of_eq (s := s) rfl (Nat.le_refl _) fun _ => rfl) s hown
    exact ih (h.apply hown hc) hown' hrest

/-! ## The gates -/

/-- The features of an engine cannot be bypassed: what they leave out is nowhere, and whoever
registers it is refused and changes nothing.  Several members are refused for the first of them. -/
structure Gated (s : Host) (e : EngineId) : Prop where
  registered : ∀ f ∈ (s.table (s.engine e).own).functions,
    (s.engine e).features.bars f.name = false
  collected : ∀ (b : BuilderId) (state : Builder), s.builders[b]? = some state →
    state.engine = e → ∀ f ∈ state.pending, (s.engine e).features.bars f.name = false
  register : ∀ (m : Member) (a : Accessor), m.role = .inl a →
    (s.engine e).features.bars a.functionName = true → ∃ f, (s.engine e).features.has f = false ∧
      ∀ receiver rest, Act.registerMembers e receiver (m :: rest) s =
        (.error (.disabled (m.operation a "register") f), s)
  collect : ∀ (b : BuilderId) (state : Builder), s.builders[b]? = some state →
    state.engine = e → ∀ (m : Member) (a : Accessor), m.role = .inl a →
    (s.engine e).features.bars a.functionName = true → ∃ f, (s.engine e).features.has f = false ∧
      ∀ rest, Act.addMembers b (m :: rest) s = (.error (.disabled (m.operation a "with") f), s)

theorem makeMember_of_disabled {m : Member} {verb : String} {x : Failure}
    (h : m.check verb (s.engine e).features = .error x) (receiver : Option Kind) :
    Act.makeMember e verb receiver m s = (.error x, s) := by
  rw [Act.makeMember_apply, h]
  rfl

/-- **The gates of features cannot be bypassed.**  Take any run whose commands give the own table of
an engine nothing but members, and no plain function under a reserved name.  After it nothing that
the features of the engine leave out is in its table or waits in one of its builders, and every
further attempt to register such an accessor, on the engine or on a builder, alone or as the first
of two, is refused as disabled and changes nothing. -/
theorem gated_after (cs : List Command) {e : EngineId}
    (he : e < (Host.initial.after cs).engines.size)
    (hcs : ∀ p ∈ Host.initial.trace cs, p.1.KeepsNames p.2 e) :
    (Host.initial.after cs).Gated e := by
  have hinitial : Host.initial.Barred e :=
    ⟨fun h => absurd h (Nat.not_lt_zero e),
      fun b state hstate => absurd hstate.symm (Option.some_ne_none state)⟩
  have hbarred := barred_after hinitial (ownTables_after []) hcs
  set s := Host.initial.after cs
  refine ⟨hbarred.registered he, fun b state hstate hengine f hf =>
    (hbarred.collected b state hstate hengine f hf).2, fun m a hrole hbars => ?_,
    fun b state hstate hengine m a hrole hbars => ?_⟩
  · obtain ⟨f, hoff, hcheck⟩ := Member.exists_disabled hrole hbars
    refine ⟨f, hoff, fun receiver rest => ?_⟩
    rw [Act.registerMembers, Act.bind_apply, Act.registerMember, Act.bind_apply,
      makeMember_of_disabled (hcheck "register")]
  · obtain ⟨f, hoff, hcheck⟩ := Member.exists_disabled hrole hbars
    refine ⟨f, hoff, fun rest => ?_⟩
    subst hengine
    rw [Act.addMembers, Act.bind_apply, Act.addMember, Act.builder, Act.ask_bind_apply, hstate,
      Option.getD_some, Act.bind_apply, makeMember_of_disabled (hcheck "with")]

/-- A method without parameters of its own. -/
def normMethod : Member :=
  ⟨.inr "norm", false, .function ⟨[⟨"self", none, .positional, false⟩], none, [], .usual⟩, []⟩

/-- A type is described on an engine without features; reading its property is refused. -/
def withoutFeatures : List Command :=
  [.newEngine (some ⟨fun _ => false⟩) false, .openBuilder 0 (.object "Point"),
   .addMembers 0 [normMethod], .addMembers 0 [xGetter],
   .registerMembers 0 (some (.object "Line")) [normMethod], .closeBuilder 0]

theorem gated_withoutFeatures :
    ((Host.initial.after withoutFeatures).table 0).keys =
        [⟨"norm", [.object "Line"]⟩, ⟨"norm", [.object "Point"]⟩] ∧
      (Host.initial.after withoutFeatures).Gated 0 ∧
      ((Host.initial.after withoutFeatures).engine 0).features.bars
        (Accessor.getter "x").functionName = true := by
  have hnorm : normMethod.IsPlain := by
    rintro name hname
    obtain rfl := Sum.inr.inj hname
    decide
  have hgetter : xGetter.IsPlain := fun name hname => absurd hname Sum.inl_ne_inr
  have hnames : ∀ p ∈ Host.initial.trace withoutFeatures, p.1.KeepsNames p.2 0 := by
    intro p hp
    simp only [withoutFeatures, trace, List.mem_cons, List.not_mem_nil, or_false] at hp
    have hnone : (none : Option TableId) ≠ some 0 := (Option.some_ne_none 0).symm
    rcases hp with rfl | rfl | rfl | rfl | rfl | rfl
    · exact Command.keepsNames_of_none rfl rfl
    · exact Command.keepsNames_of_none rfl rfl
    · exact ⟨fun _ => hnone, by decide +kernel, fun _ => List.forall_mem_singleton.mpr hnorm⟩
    · exact ⟨fun _ => hnone, by decide +kernel, fun _ => List.forall_mem_singleton.mpr hgetter⟩
    · exact ⟨fun _ => hnone, by decide +kernel, fun _ => List.forall_mem_singleton.mpr hnorm⟩
    · exact ⟨fun _ => hnone, by decide +kernel, fun _ => List.forall_mem_nil _⟩
  have hengine : 0 < (Host.initial.after withoutFeatures).engines.size := by decide +kernel
  exact ⟨by decide +kernel, gated_after withoutFeatures hengine hnames, by decide +kernel⟩

end Host
end ScriptHost
