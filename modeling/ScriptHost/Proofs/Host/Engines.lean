import ScriptHost.Proofs.Host.Isolation

/-!
# Where engines come from

One command makes an engine, together with a table for the functions of the engine itself.  All
others leave it at the engines that are there, and an engine keeps its table for good.

* `Act.own_newEngine`: a new engine has the table that was made with it.
* `Host.sameEngines_apply`: no other command makes an engine or gives one another table.
-/

namespace ScriptHost

namespace Host

variable {s s' s'' : Host} {e : EngineId}

/-- The engines are the same, with the same tables of their own. -/
structure SameEngines (s s' : Host) : Prop where
  size : s'.engines.size = s.engines.size
  own : ∀ e, (s'.engine e).own = (s.engine e).own

theorem SameEngines.trans (h : s.SameEngines s') (h' : s'.SameEngines s'') : s.SameEngines s'' where
  size := h'.size.trans h.size
  own e := (h'.own e).trans (h.own e)

theorem sameEngines_of_eq (h : s'.engines = s.engines) : s.SameEngines s' where
  size := by rw [h]
  own e := by rw [engine, engine, h]

theorem sameEngines_setEngine {new : Engine} (hnew : new.own = (s.engine e).own) :
    s.SameEngines (s.setEngine e new) where
  size := Array.size_setIfInBounds
  own := own_setEngine hnew

end Host

namespace Act

theorem engines_registerAll (t : TableId) (fs : List Native) (s : Host) :
    (registerAll t fs s).2.engines = s.engines := by
  cases hfrozen : (s.table t).frozen with
  | true => rw [state_registerAll_of_frozen hfrozen]
  | false =>
    obtain ⟨log, heq⟩ := enters_registerAll hfrozen fs
    rw [heq]
    rfl

theorem engines_buildPackage (p : PackageDef) (given : Option Features) (home : Option EngineId)
    (s : Host) : (buildPackage p given home s).2.engines = s.engines := by
  rw [buildPackage, bind_apply]
  rcases featuresOr_cases given s with ⟨fs, -, heq⟩ | ⟨x, -, heq⟩
  · rw [heq]
    refine bind_along (fun s s' => s'.engines = s.engines) (fun h h' => h'.trans h) rfl
      fun t s₁ hnew => ?_
    obtain rfl := (Prod.mk.inj hnew).2
    refine bind_along (fun s s' => s'.engines = s.engines) (fun h h' => h'.trans h) ?_
      fun _ _ _ => rfl
    rw [state_enterAll]
    exact engines_registerAll t _ _
  · rw [heq]

theorem engines_define (p : PackageDef) (s : Host) : (define p s).2.engines = s.engines := by
  rw [define]
  split
  · rfl
  · rw [ask_bind_apply]
    split <;> rfl

theorem sameEngines_loadTable (e : EngineId) (t : TableId) (s : Host) :
    s.SameEngines (loadTable e t s).2 := by
  have hlogged : s.SameEngines (log .info engineLogger
      s!"Loading package {(s.table t).title} ({(s.table t).size} function(s))" s).2 :=
    Host.sameEngines_of_eq rfl
  exact hlogged.trans (Host.sameEngines_setEngine rfl)

theorem sameEngines_registerKind (e : EngineId) (k : Kind) (name : Option String) (s : Host) :
    s.SameEngines (registerKind e k name s).2 := by
  have hnamed : s.SameEngines (s.setEngine e { s.engine e with
      names := (k, name) :: (s.engine e).names.filter fun entry => entry.1 ≠ k }) :=
    Host.sameEngines_setEngine rfl
  exact hnamed.trans (Host.sameEngines_of_eq rfl)

theorem sameEngines_closeBuilder (b : BuilderId) (s : Host) :
    s.SameEngines (closeBuilder b s).2 := by
  rw [closeBuilder, builder, ask_bind_apply]
  generalize s.builders[b]?.getD _ = state
  split
  · exact Host.sameEngines_of_eq rfl
  · have hclosed : s.SameEngines (s.setBuilder b { state with finalized := true }) :=
      Host.sameEngines_of_eq rfl
    refine bind_along Host.SameEngines .trans hclosed fun _ s₁ _ => ?_
    rw [ask_bind_apply]
    refine bind_along _ .trans (Host.sameEngines_of_eq (engines_registerAll _ _ s₁))
      fun _ s₂ _ => ?_
    refine bind_along _ .trans (sameEngines_registerKind _ _ _ s₂) fun _ s₃ _ => ?_
    exact Host.sameEngines_of_eq rfl

/-- Loading the package that an engine is made with leaves it its own table. -/
theorem sameEngines_load (e : EngineId) (id : PackageId) (s : Host) :
    s.SameEngines ((do
      match ← ask fun s => s.packages[id]? with
      | some package => loadTable e package.table
      | none => pure ()
      pure e : Act EngineId) s).2 := by
  rw [ask_bind_apply]
  cases s.packages[id]? with
  | none => exact Host.sameEngines_of_eq rfl
  | some package =>
    exact bind_along Host.SameEngines .trans (sameEngines_loadTable e package.table s)
      fun _ _ _ => Host.sameEngines_of_eq rfl

/-- The engine that has been added last keeps its functions in the table that was added with it. -/
theorem own_of_push (fs : Features) (name : Option String) {s s' : Host} {e : EngineId}
    (h : Host.SameEngines { s with
      tables := s.tables.push (.empty name)
      engines := s.engines.push ⟨fs, s.tables.size, [], [], false⟩ } s')
    (hold : s.engines.size ≤ e) (hnew : e < s'.engines.size) :
    (s'.engine e).own = s.tables.size := by
  rw [h.size, Array.size_push] at hnew
  obtain rfl : s.engines.size = e := Nat.le_antisymm hold (Nat.le_of_lt_succ hnew)
  rw [h.own, Host.engine, Array.getElem?_push_size]
  rfl

theorem own_newEngine (given : Option Features) (withStrings : Bool) {s : Host} {e : EngineId}
    (hold : s.engines.size ≤ e) (hnew : e < (newEngine given withStrings s).2.engines.size) :
    ((newEngine given withStrings s).2.engine e).own = s.tables.size := by
  revert hnew
  rw [newEngine, bind_apply]
  rcases featuresOr_cases given s with ⟨fs, -, heq⟩ | ⟨x, -, heq⟩
  · rw [heq]
    dsimp only
    rw [Host.ownTable_apply]
    cases withStrings with
    | false => exact fun hnew => own_of_push fs _ (Host.sameEngines_of_eq rfl) hold hnew
    | true =>
      refine fun hnew => own_of_push fs (some ownTableName) ?_ hold hnew
      exact bind_along Host.SameEngines .trans
        (Host.sameEngines_of_eq (engines_buildPackage _ _ _ _))
        fun p s₂ _ => sameEngines_load s.engines.size p s₂
  · rw [heq]
    exact fun hnew => absurd hnew (Nat.not_lt_of_le hold)

end Act

namespace Host

/-- **Only making an engine makes one.** -/
theorem sameEngines_apply {c : Command} (hc : ∀ given withStrings, c ≠ .newEngine given withStrings)
    (s : Host) : s.SameEngines (c.apply s) := by
  cases c with
  | newTable name => exact sameEngines_of_eq rfl
  | register t f =>
    have hstate : (Act.registerAll t [f] s).2 = (Act.register t f s).2 := by
      rw [Act.registerAll, Act.bind_apply]
      rcases Act.register t f s with ⟨_ | _, _⟩ <;> rfl
    rw [Command.apply, Command.perform, ← hstate]
    exact sameEngines_of_eq (Act.engines_registerAll t [f] s)
  | enter t home x =>
    have hstate : (Command.enter t home x).apply s = (Act.enterAll t home [x] s).2 := rfl
    rw [hstate, Act.state_enterAll]
    exact sameEngines_of_eq (Act.engines_registerAll t _ s)
  | merge t u => exact sameEngines_of_eq (Act.engines_registerAll t _ s)
  | freeze t => exact sameEngines_of_eq rfl
  | define p => exact sameEngines_of_eq (Act.engines_define p s)
  | buildPackage p given home =>
    rw [Command.apply, Command.perform, Act.state_discard]
    exact sameEngines_of_eq (Act.engines_buildPackage p given home s)
  | populate id t home =>
    rw [Command.apply, Command.perform, Act.ask_bind_apply]
    cases s.packages[id]? with
    | none => exact sameEngines_of_eq rfl
    | some package =>
      have hengines := Act.engines_registerAll t
        (s.makeEntries home (package.definition.entriesFor package.features)) s
      rw [← Act.state_enterAll] at hengines
      exact sameEngines_of_eq hengines
  | newEngine given withStrings => exact absurd rfl (hc given withStrings)
  | addTable d t => exact sameEngines_setEngine rfl
  | loadTable d t => exact Act.sameEngines_loadTable d t s
  | registerMembers d receiver ms =>
    rw [Command.apply, Command.perform, Act.state_registerMembers]
    exact sameEngines_of_eq (Act.engines_registerAll _ _ s)
  | registerKind d k name => exact Act.sameEngines_registerKind d k name s
  | hook d => exact sameEngines_setEngine rfl
  | closeBuilder d => exact Act.sameEngines_closeBuilder d s
  | configure c => exact sameEngines_of_eq rfl
  | openBuilder d k => exact sameEngines_of_eq (sameTables_apply (.inl rfl) s).engines
  | addMembers d ms => exact sameEngines_of_eq (sameTables_apply (.inl rfl) s).engines
  | nameType d name => exact sameEngines_of_eq (sameTables_apply (.inl rfl) s).engines
  | build d => exact sameEngines_of_eq (sameTables_apply (.inr rfl) s).engines
  | wrap v => exact sameEngines_of_eq (sameTables_apply (.inr rfl) s).engines
  | clone a => exact sameEngines_of_eq (sameTables_apply (.inr rfl) s).engines
  | cast a k => exact sameEngines_of_eq (sameTables_apply (.inr rfl) s).engines
  | call d name arguments => exact sameEngines_of_eq (sameTables_apply (.inr rfl) s).engines
  | invoke f arguments => exact sameEngines_of_eq (sameTables_apply (.inr rfl) s).engines
  | emit d channel arguments => exact sameEngines_of_eq (sameTables_apply (.inr rfl) s).engines

end Host
end ScriptHost
