import ScriptHost.Proofs.Host.Building
import ScriptHost.Proofs.Host.Sealing

/-!
# What engines share and what they do not

Engines that load the same package search one and the same table.  Nothing gets through it from one
engine to another: the table of a package cannot be written (`Sealed`), and an operation of an
engine writes one table only, that of the engine itself.

`Elsewhere e s s'` says that engines other than `e`, and tables other than the own table of `e`, are
the same in both states.  It is proved for each operation of an engine and for runs of such
operations.  No two engines have one own table, so another engine finds the same functions as
before, unless it has loaded the own table of the first.

* `OwnTables`, `ownTables_after`: each engine has a table of its own.
* `Command.ActsOn`: the operations of an engine, on itself and on the builders that were opened for
  it; `elsewhere_apply` and `elsewhere_trace`: what they leave alone.
* `Elsewhere.sameView`: what another engine finds and how it names kinds.
* `isolated_after`: packages are sealed, and engines do not see what others do.
* `not_frozen_first`: a function that the table of a package is not asked about.
-/

namespace ScriptHost
namespace Host

variable {s s' s'' : Host} {e : EngineId}

/-! ## Engines have tables of their own -/

/-- Each engine has a table of its own, and no two have the same. -/
structure OwnTables (s : Host) : Prop where
  lt : ∀ e < s.engines.size, (s.engine e).own < s.tables.size
  inj : ∀ d < s.engines.size, ∀ e < s.engines.size, (s.engine d).own = (s.engine e).own → d = e

theorem OwnTables.of_eq (h : s.OwnTables) (hengines : s'.engines.size = s.engines.size)
    (htables : s.tables.size ≤ s'.tables.size)
    (hown : ∀ e, (s'.engine e).own = (s.engine e).own) : s'.OwnTables where
  lt e he := by
    rw [hown]
    exact Nat.lt_of_lt_of_le (h.lt e (hengines ▸ he)) htables
  inj d hd e he heq := by
    rw [hown, hown] at heq
    exact h.inj d (hengines ▸ hd) e (hengines ▸ he) heq

theorem own_setEngine {new : Engine} (hnew : new.own = (s.engine e).own) (d : EngineId) :
    ((s.setEngine e new).engine d).own = (s.engine d).own := by
  rw [engine_setEngine]
  split
  · rename_i h
    rw [hnew, h.1]
  · rfl

theorem OwnTables.setEngine (h : s.OwnTables) {new : Engine}
    (hnew : new.own = (s.engine e).own) : (s.setEngine e new).OwnTables :=
  h.of_eq Array.size_setIfInBounds (Nat.le_refl _) (own_setEngine hnew)

/-- A new engine gets the table that is made with it. -/
theorem OwnTables.newEngine (h : s.OwnTables) (fs : Features) (name : Option String) :
    OwnTables { s with
      tables := s.tables.push (.empty name)
      engines := s.engines.push ⟨fs, s.tables.size, [], [], false⟩ } := by
  set s' : Host := { s with
    tables := s.tables.push (.empty name)
    engines := s.engines.push ⟨fs, s.tables.size, [], [], false⟩ } with hs'
  have hold : ∀ e < s.engines.size, (s'.engine e).own = (s.engine e).own := by
    intro e he
    rw [engine, engine, hs', Array.getElem?_push, if_neg (Nat.ne_of_lt he)]
  have hnew : (s'.engine s.engines.size).own = s.tables.size := by
    rw [engine, hs', Array.getElem?_push_size]
    rfl
  have htables : s'.tables.size = s.tables.size + 1 := Array.size_push _
  have hcases : ∀ e < s'.engines.size, e < s.engines.size ∨ e = s.engines.size := by
    intro e he
    rw [hs', Array.size_push] at he
    exact Nat.lt_succ_iff_lt_or_eq.mp he
  refine ⟨fun e he => ?_, fun d hd e he heq => ?_⟩
  · rcases hcases e he with he | rfl
    · rw [hold e he, htables]
      exact Nat.lt_succ_of_lt (h.lt e he)
    · rw [hnew, htables]
      exact Nat.lt_succ_self _
  · rcases hcases d hd with hd | rfl
    · rcases hcases e he with he | rfl
      · rw [hold d hd, hold e he] at heq
        exact h.inj d hd e he heq
      · rw [hold d hd, hnew] at heq
        exact absurd heq (Nat.ne_of_lt (h.lt d hd))
    · rcases hcases e he with he | rfl
      · rw [hold e he, hnew] at heq
        exact absurd heq.symm (Nat.ne_of_lt (h.lt e he))
      · rfl

theorem along_ownTables : Along anyBuilder fun s s' => s.OwnTables → s'.OwnTables where
  refl _ h := h
  trans h₁ h₂ h := h₂ (h₁ h)
  aside _ _ _ _ _ h := h.of_eq rfl (Nat.le_refl _) fun _ => rfl
  packed _ _ _ h := h.of_eq rfl (Nat.le_refl _) fun _ => rfl
  newTable s name h := h.of_eq rfl (along_size.newTable s name) fun _ => rfl
  entered s t f hopen h := h.of_eq rfl (along_size.entered s t f hopen) fun _ => rfl
  frozen s t h := h.of_eq rfl (along_size.frozen s t) fun _ => rfl
  newEngine _ fs name h := h.newEngine fs name
  loaded _ _ _ h := h.setEngine rfl
  named _ _ _ _ h := h.setEngine rfl
  opened _ _ _ h := h.of_eq rfl (Nat.le_refl _) fun _ => rfl
  collected _ _ _ _ _ _ _ _ _ h := h.of_eq rfl (Nat.le_refl _) fun _ => rfl

theorem ownTables_after (cs : List Command) : (Host.initial.after cs).OwnTables := by
  refine after_along along_ownTables
    (fun s _ h => h.of_eq (s := s) rfl (Nat.le_refl _) fun _ => rfl)
    .initial cs ⟨fun e he => ?_, fun d hd => ?_⟩
  · exact absurd he (Nat.not_lt_zero e)
  · exact absurd hd (Nat.not_lt_zero d)

/-! ## What an operation of an engine leaves alone -/

/-- Nothing has changed of other engines than this one, and of other tables than its own. -/
structure Elsewhere (e : EngineId) (s s' : Host) : Prop where
  own : (s'.engine e).own = (s.engine e).own
  engine : ∀ d, d ≠ e → s'.engine d = s.engine d
  table : ∀ t, t ≠ (s.engine e).own → s'.table t = s.table t

theorem Elsewhere.trans (h : s.Elsewhere e s') (h' : s'.Elsewhere e s'') : s.Elsewhere e s'' where
  own := h'.own.trans h.own
  engine d hd := (h'.engine d hd).trans (h.engine d hd)
  table t ht := (h'.table t (h.own.symm ▸ ht)).trans (h.table t ht)

/-- All else does not matter. -/
theorem SameTables.elsewhere (h : s.SameTables s') : s.Elsewhere e s' where
  own := by rw [Host.engine, Host.engine, h.engines]
  engine d _ := by rw [Host.engine, Host.engine, h.engines]
  table t _ := by rw [Host.table, Host.table, h.tables]

/-- The engine itself may change, but for its own table. -/
theorem elsewhere_setEngine {new : Engine} (hnew : new.own = (s.engine e).own) :
    s.Elsewhere e (s.setEngine e new) where
  own := own_setEngine hnew e
  engine d hd := by rw [engine_setEngine, if_neg fun h => hd h.1.symm]
  table _ _ := rfl

end Host

namespace Act

variable {s : Host} {e : EngineId} {t : TableId}

theorem elsewhere_register (ht : (s.engine e).own = t) (f : Native) :
    s.Elsewhere e (register t f s).2 := by
  cases hfrozen : (s.table t).frozen with
  | true =>
    rw [register_of_frozen hfrozen]
    exact Host.SameTables.elsewhere ⟨rfl, rfl⟩
  | false =>
    rw [register_of_open hfrozen]
    refine ⟨rfl, fun _ _ => rfl, fun u hu => ?_⟩
    rw [Host.table_setTable, if_neg fun h => hu (h.1.symm.trans ht.symm)]
    rfl

theorem elsewhere_registerAll (ht : (s.engine e).own = t) (fs : List Native) :
    s.Elsewhere e (registerAll t fs s).2 := by
  induction fs generalizing s with
  | nil => exact Host.SameTables.elsewhere ⟨rfl, rfl⟩
  | cons f rest ih =>
    have hfirst := elsewhere_register ht f
    refine bind_along (Host.Elsewhere e) .trans hfirst fun _ s₁ h₁ => ih ?_
    rw [h₁] at hfirst
    exact hfirst.own.trans ht

theorem elsewhere_registerMembers (receiver : Option Kind) (ms : List Member) :
    s.Elsewhere e (registerMembers e receiver ms s).2 := by
  induction ms generalizing s with
  | nil => exact Host.SameTables.elsewhere ⟨rfl, rfl⟩
  | cons m rest ih =>
    refine bind_along (Host.Elsewhere e) .trans ?_ fun _ _ _ => ih
    refine bind_along (Host.Elsewhere e) .trans ?_ fun f s₁ _ => elsewhere_register rfl f
    rw [makeMember_apply]
    exact Host.SameTables.elsewhere ⟨rfl, rfl⟩

theorem elsewhere_registerKind (k : Kind) (name : Option String) :
    s.Elsewhere e (registerKind e k name s).2 := by
  have hnamed : s.Elsewhere e (s.setEngine e { s.engine e with
      names := (k, name) :: (s.engine e).names.filter fun entry => entry.1 ≠ k }) :=
    Host.elsewhere_setEngine rfl
  exact hnamed.trans (Host.SameTables.elsewhere ⟨rfl, rfl⟩)

theorem elsewhere_closeBuilder {b : BuilderId} {state : Builder}
    (hstate : s.builders[b]? = some state) : s.Elsewhere state.engine (closeBuilder b s).2 := by
  rw [closeBuilder, builder, ask_bind_apply, hstate, Option.getD_some]
  split
  · exact Host.SameTables.elsewhere ⟨rfl, rfl⟩
  · -- the builder is closed first, and then what it has collected is registered
    have hclosed : s.Elsewhere state.engine (s.setBuilder b { state with finalized := true }) :=
      Host.SameTables.elsewhere ⟨rfl, rfl⟩
    refine bind_along (Host.Elsewhere state.engine) .trans hclosed fun _ s₁ _ => ?_
    rw [ask_bind_apply]
    refine bind_along _ .trans (elsewhere_registerAll rfl _) fun _ s₂ _ => ?_
    refine bind_along _ .trans (elsewhere_registerKind _ _) fun _ s₃ _ => ?_
    exact Host.SameTables.elsewhere ⟨rfl, rfl⟩

end Act

/-- The command is an operation of the engine, on itself or on a builder that was opened for it. -/
def Command.ActsOn (s : Host) (e : EngineId) : Command → Prop
  | .addTable d _ | .loadTable d _ | .registerMembers d _ _ | .registerKind d _ _ | .hook d
  | .openBuilder d _ | .call d _ _ | .emit d _ _ => d = e
  | .addMembers b _ | .nameType b _ | .closeBuilder b =>
    ∃ state, s.builders[b]? = some state ∧ state.engine = e
  | _ => False

namespace Host

variable {s s' : Host} {d e : EngineId}

/-- **An operation of an engine changes nothing elsewhere.** -/
theorem elsewhere_apply {c : Command} (hc : c.ActsOn s e) : s.Elsewhere e (c.apply s) := by
  cases c with
  | addTable d t =>
    obtain rfl := hc
    exact elsewhere_setEngine rfl
  | loadTable d t =>
    obtain rfl := hc
    have hlogged : s.Elsewhere d (Act.log .info engineLogger
        s!"Loading package {(s.table t).title} ({(s.table t).size} function(s))" s).2 :=
      SameTables.elsewhere ⟨rfl, rfl⟩
    exact hlogged.trans (elsewhere_setEngine rfl)
  | registerMembers d receiver ms =>
    obtain rfl := hc
    exact Act.elsewhere_registerMembers receiver ms
  | registerKind d k name =>
    obtain rfl := hc
    exact Act.elsewhere_registerKind k name
  | hook d =>
    obtain rfl := hc
    exact elsewhere_setEngine rfl
  | openBuilder d k => exact (sameTables_apply (.inl rfl) s).elsewhere
  | addMembers b ms => exact (sameTables_apply (.inl rfl) s).elsewhere
  | nameType b name => exact (sameTables_apply (.inl rfl) s).elsewhere
  | closeBuilder b =>
    obtain ⟨state, hstate, rfl⟩ := hc
    exact Act.elsewhere_closeBuilder hstate
  | call d name arguments => exact (sameTables_apply (.inr rfl) s).elsewhere
  | emit d channel arguments => exact (sameTables_apply (.inr rfl) s).elsewhere
  | _ => exact hc.elim

/-- **And neither does a run of its operations.** -/
theorem elsewhere_trace {cs : List Command} (hcs : ∀ p ∈ s.trace cs, p.1.ActsOn p.2 e) :
    s.Elsewhere e (s.after cs) := by
  induction cs generalizing s with
  | nil => exact SameTables.elsewhere ⟨rfl, rfl⟩
  | cons c cs ih =>
    obtain ⟨hc, hrest⟩ := List.forall_mem_cons.mp hcs
    exact (elsewhere_apply hc).trans (ih hrest)

/-! ## What another engine sees -/

/-- What an engine finds for calls, and how it names kinds, is the same in both states. -/
structure SameView (s s' : Host) (e : EngineId) : Prop where
  resolve : ∀ name kinds, s'.resolve e name kinds = s.resolve e name kinds
  kindName : ∀ k, (s'.engine e).kindName k = (s.engine e).kindName k

theorem Elsewhere.sameView (h : s.Elsewhere d s') (hde : e ≠ d)
    (hown : (s.engine d).own ∉ (s.engine e).searched) : s.SameView s' e := by
  have hengine := h.engine e hde
  refine ⟨fun name kinds => ?_, fun k => by rw [hengine]⟩
  have htables : s'.tablesOf e = s.tablesOf e := by
    rw [tablesOf, tablesOf, hengine]
    exact List.map_congr_left fun t ht => h.table t fun heq => hown (heq ▸ ht)
  rw [Host.resolve, htables, Host.resolve]

/-- **Shared packages let nothing through.**  In every state of every run each package is sealed,
and whatever an engine `d` does next, another engine `e` finds the same functions and names kinds
the same, unless it has loaded the own table of `d`. -/
theorem isolated_after (cs : List Command) :
    (∀ (id : PackageId) (p : Package), (Host.initial.after cs).packages[id]? = some p →
      (Host.initial.after cs).Sealed id p) ∧
    ∀ (d e : EngineId), d < (Host.initial.after cs).engines.size →
      e < (Host.initial.after cs).engines.size → e ≠ d →
      ((Host.initial.after cs).engine d).own ∉ ((Host.initial.after cs).engine e).loaded →
      ∀ ds, (∀ p ∈ (Host.initial.after cs).trace ds, p.1.ActsOn p.2 d) →
        (Host.initial.after cs).SameView ((Host.initial.after cs).after ds) e := by
  refine ⟨fun id p => sealed_after cs, fun d e hd he hed hloaded ds hds => ?_⟩
  refine (elsewhere_trace hds).sameView hed ?_
  rw [Engine.searched, List.mem_cons, List.mem_reverse, not_or]
  exact ⟨fun heq => hed ((ownTables_after cs).inj d hd e he heq).symm, hloaded⟩

/-- A package with one function. -/
def pointPackage : PackageDef :=
  ⟨"Points", "", [⟨none, "x", xGetter.callable, [], .free none false (some (.object "Point"))⟩]⟩

/-- Two engines load one package. -/
def sharing : List Command :=
  [.newEngine (some .all) false, .newEngine (some .all) false,
   .buildPackage pointPackage (some .all) none, .loadTable 0 2, .loadTable 1 2]

/-- One of them registers functions and a type, directly and through a builder. -/
def describing : List Command :=
  [.registerMembers 0 (some (.object "Point")) [xGetter], .openBuilder 0 (.object "Point"),
   .addMembers 0 [xGetter], .nameType 0 "Vector", .closeBuilder 0]

theorem isolated_sharing :
    ((Host.initial.after sharing).engine 0).loaded = [2] ∧
      ((Host.initial.after sharing).engine 1).loaded = [2] ∧
      (Host.initial.after sharing).SameView ((Host.initial.after sharing).after describing) 1 := by
  have hfirst : ((Host.initial.after sharing).engine 0).loaded = [2] := by decide +kernel
  have hsecond : ((Host.initial.after sharing).engine 1).loaded = [2] := by decide +kernel
  have hacts : ∀ p ∈ (Host.initial.after sharing).trace describing, p.1.ActsOn p.2 0 := by
    intro p hp
    simp only [describing, trace, List.mem_cons, List.not_mem_nil, or_false] at hp
    rcases hp with rfl | rfl | rfl | rfl | rfl
    · rfl
    · rfl
    · exact ⟨_, rfl, rfl⟩
    · exact ⟨_, rfl, rfl⟩
    · exact ⟨_, rfl, rfl⟩
  exact ⟨hfirst, hsecond, (isolated_after sharing).2 0 1 (by decide +kernel) (by decide +kernel)
    (by decide) (by decide +kernel) describing hacts⟩

/-- A function whose parameter has no annotation. -/
def untyped : Entry :=
  ⟨none, "f", .function ⟨[⟨"x", none, .positional, false⟩], none, [.give (.argument 0)], .usual⟩,
    [], .free none true none⟩

/-- The table of a package is not asked about a function that cannot be made. -/
theorem not_frozen_first :
    let shared := Host.initial.after sharing
    (shared.packages[0]?.map Package.table) = some 2 ∧ (shared.table 2).frozen = true ∧
      (Act.enter 2 none untyped shared).1 = .error (.shape "f" (.noHint "x")) ∧
      (Failure.shape "f" (.noHint "x")).className = "TypeError" := by
  exact ⟨by decide +kernel, by decide +kernel, rfl, rfl⟩

end Host
end ScriptHost
