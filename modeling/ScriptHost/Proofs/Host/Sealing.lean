import ScriptHost.Proofs.Function.Making
import ScriptHost.Proofs.Host.Tables

/-!
# Packages are sealed

A package may be loaded by any number of engines, which all search one and the same table, so it
matters that nobody can write into it.  The table is closed before there is a package, what is
closed stays closed, and a closed table refuses every function, by whatever way it comes.

Not every attempt fails for the reason that the table is closed.  A function is made before it is
offered, so one that has no shape is reported as such, and a closed table answers for itself just
where an open one would have taken the function.

* `Refuses`, `refuses_of_frozen`: what becomes of a function that is offered to a closed table.
* `PackagesClosed`: a package is there only once its table is closed.
* `Sealed`, `sealed_after`: every package of every run keeps its table, and the table what it holds.
-/

namespace ScriptHost
namespace Host

variable {s s' : Host} {t : TableId}

/-! ## What a closed table refuses -/

/-- A closed table takes no function: whatever is offered fails, unless there was nothing to offer,
and in each case the state is as before. -/
structure Refuses (s : Host) (t : TableId) : Prop where
  register : ∀ f, Act.register t f s = (.error (.frozen (s.table t).title), s)
  /-- A function that is still to be made is made first … -/
  enter : ∀ home x, Act.enter t home x s =
    ((x.toNative s.config.maxArity home).bind fun _ => .error (.frozen (s.table t).title), s)
  /-- … so offering it always fails … -/
  fails : ∀ home x, ∃ y, Act.enter t home x s = (.error y, s)
  /-- … and with the class of failure of a closed table just where an open one would take it. -/
  className_iff : ∀ home x y, Act.enter t home x s = (.error y, s) →
    (y.className = "RuntimeError" ↔ ∃ f, x.toNative s.config.maxArity home = .ok f)
  merge : ∀ u, Act.merge t u s = match (s.table u).functions with
    | [] => (.ok (), s)
    | _ :: _ => (.error (.frozen (s.table t).title), s)
  populate : ∀ p home, Act.populate p t home s = match p.definition.entriesFor p.features with
    | [] => (.ok (), s)
    | x :: _ => ((x.toNative s.config.maxArity home).bind fun _ =>
        .error (.frozen (s.table t).title), s)
  /-- This is how the failure is reported. -/
  className : (Failure.frozen (s.table t).title).className = "RuntimeError"

theorem enter_of_frozen (ht : (s.table t).frozen = true) (home : Option EngineId) (x : Entry) :
    Act.enter t home x s =
      ((x.toNative s.config.maxArity home).bind fun _ => .error (.frozen (s.table t).title),
        s) := by
  rw [Act.enter, Act.ask_bind_apply, Act.bind_apply, Act.lift]
  cases x.toNative s.config.maxArity home with
  | error y => rfl
  | ok f =>
    simp only [Act.bind_apply, Act.register_of_frozen ht]
    rfl

/-- **A closed table refuses every function.** -/
theorem refuses_of_frozen (ht : (s.table t).frozen = true) : s.Refuses t where
  register f := Act.register_of_frozen ht
  enter := enter_of_frozen ht
  fails home x := by
    rw [enter_of_frozen ht]
    cases x.toNative s.config.maxArity home with
    | error y => exact ⟨y, rfl⟩
    | ok f => exact ⟨_, rfl⟩
  className_iff home x y hy := by
    rw [enter_of_frozen ht] at hy
    replace hy := congrArg Prod.fst hy
    cases hmake : x.toNative s.config.maxArity home with
    | error z =>
      rw [hmake] at hy
      have hclass := (Failure.making_entry x _ home z hmake).className_ne
      rw [Except.error.inj hy] at hclass
      exact ⟨fun h => absurd h hclass, fun ⟨_, hok⟩ => absurd hok nofun⟩
    | ok f =>
      rw [hmake] at hy
      rw [← Except.error.inj hy]
      exact ⟨fun _ => ⟨f, rfl⟩, fun _ => rfl⟩
  merge u := by
    rw [Act.merge, Act.ask_bind_apply]
    cases (s.table u).functions with
    | nil => rfl
    | cons f rest =>
      rw [Act.registerAll, Act.bind_apply, Act.register_of_frozen ht]
  populate p home := by
    rw [Act.populate]
    cases p.definition.entriesFor p.features with
    | nil => rfl
    | cons x rest =>
      simp only [Act.enterAll, Act.bind_apply, enter_of_frozen ht]
      cases x.toNative s.config.maxArity home <;> rfl
  className := rfl

/-! ## Packages and their tables -/

/-- A package, its table, and what can be done about them. -/
structure Sealed (s : Host) (id : PackageId) (p : Package) : Prop where
  closed : (s.table p.table).frozen = true
  refuses : s.Refuses p.table
  /-- Whatever happens, the package keeps its table and the table what it holds. -/
  lasting : ∀ cs, (s.after cs).packages[id]? = some p ∧ (s.after cs).table p.table = s.table p.table

/-- A package is never taken away or given another table. -/
theorem along_packages (id : PackageId) (p : Package) : Along anyBuilder fun s s' =>
    s.packages[id]? = some p → s'.packages[id]? = some p where
  refl _ h := h
  trans h₁ h₂ h := h₂ (h₁ h)
  aside _ _ _ _ _ h := h
  packed s q _ h := by
    have hid : id < s.packages.size := (Array.getElem?_eq_some_iff.mp h).1
    rw [Array.getElem?_push, if_neg (Nat.ne_of_lt hid), h]
  newTable _ _ h := h
  entered _ _ _ _ h := h
  frozen _ _ h := h
  newEngine _ _ _ h := h
  loaded _ _ _ h := h
  named _ _ _ _ h := h
  opened _ _ _ h := h
  collected _ _ _ _ _ _ _ _ _ h := h

/-- The tables of all packages are closed. -/
def PackagesClosed (s : Host) : Prop :=
  ∀ (id : PackageId) (p : Package), s.packages[id]? = some p → (s.table p.table).frozen = true

theorem PackagesClosed.of_closed (h : s.PackagesClosed) (hpackages : s'.packages = s.packages)
    (hclosed : ∀ t, (s.table t).frozen = true → s'.table t = s.table t) : s'.PackagesClosed := by
  intro id p hp
  have hold := h id p (hpackages ▸ hp)
  rw [hclosed _ hold]
  exact hold

/-- A package is there only once its table is closed, and then the table stays closed. -/
theorem along_packagesClosed :
    Along anyBuilder fun s s' => s.PackagesClosed → s'.PackagesClosed where
  refl _ h := h
  trans h₁ h₂ h := h₂ (h₁ h)
  aside s _ _ _ _ h := h.of_closed rfl (along_closed.aside s _ _ _ _)
  packed s q hq h id p hp := by
    rw [Array.getElem?_push] at hp
    split at hp
    · rw [← Option.some.inj hp]
      exact hq
    · exact h id p hp
  newTable s name h := h.of_closed rfl (along_closed.newTable s name)
  entered s t f hopen h := h.of_closed rfl (along_closed.entered s t f hopen)
  frozen s t h := h.of_closed rfl (along_closed.frozen s t)
  newEngine s fs name h := h.of_closed rfl (along_closed.newEngine s fs name)
  loaded s e t h := h.of_closed rfl (along_closed.loaded s e t)
  named s e names hooked h := h.of_closed rfl (along_closed.named s e names hooked)
  opened s e k h := h.of_closed rfl (along_closed.opened s e k)
  collected s b state hb hstate hopen name pending finalized h :=
    h.of_closed rfl (along_closed.collected s b state hb hstate hopen name pending finalized)

/-- **Every package is sealed.** -/
theorem sealed_after (cs : List Command) {id : PackageId} {p : Package}
    (hp : (Host.initial.after cs).packages[id]? = some p) :
    (Host.initial.after cs).Sealed id p := by
  have hinitial : Host.initial.PackagesClosed := fun _ _ h => absurd h (by simp [Host.initial])
  have hclosed := after_along along_packagesClosed
    (fun s _ h => h.of_closed (s := s) rfl fun _ _ => rfl) .initial cs hinitial id p hp
  exact ⟨hclosed, refuses_of_frozen hclosed, fun ds =>
    ⟨after_along (along_packages id p) (fun _ _ h => h) _ ds hp, table_after_of_frozen hclosed ds⟩⟩

end Host
end ScriptHost
