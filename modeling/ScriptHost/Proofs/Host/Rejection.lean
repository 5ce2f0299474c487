import ScriptHost.Proofs.Host.Building

/-!
# Registrations that are rejected

A registration can fail for many reasons: a feature is off, the shape of the function is not
supported, it has too many parameters or not as many as its form requires, or the table is closed.
All of them are found out before anything is written, and the writing itself cannot fail, so one
registration is made as a whole or not at all.  Copying a table is made of many registrations, but
they all go to one table, which takes all of them or refuses the first.

A property is two registrations, one after the other, and nothing takes the first back: where the
setter is rejected the getter stays (`not_atomic_property`).

* `Act.Reads`, `Act.Atomic`: operations that change nothing, and those that change nothing when they
  fail; an atomic operation may be preceded by reading and followed by what cannot fail.
* `Act.registerMembers_rejected`: of several members those before the rejected one are registered.
* `rejected_registration`: what a rejected registration leaves.
-/

namespace ScriptHost
namespace Act

variable {α β : Type} {s s' : Host} {x : Failure}

/-- The operation changes nothing, whether it succeeds or fails. -/
def Reads (a : Act α) : Prop := ∀ s, (a s).2 = s

/-- The operation changes nothing when it fails. -/
def Atomic (a : Act α) : Prop := ∀ s s' x, a s = (.error x, s') → s' = s

theorem reads_ask (g : Host → α) : Reads (ask g) := fun _ => rfl

theorem reads_lift (x : Except Failure α) : Reads (lift x) := fun _ => rfl

theorem reads_makeMember (e : EngineId) (verb : String) (receiver : Option Kind) (m : Member) :
    Reads (makeMember e verb receiver m) := by
  intro s
  rw [makeMember_apply]

/-- What is read first may fail as well. -/
theorem Reads.bind_atomic {a : Act α} {f : α → Act β} (ha : Reads a) (hf : ∀ v, Atomic (f v)) :
    Atomic (a >>= f) := by
  intro s s' x h
  have hread := ha s
  rcases bind_eq_error_iff.mp h with hfirst | ⟨v, t, hfirst, hrest⟩
  · rw [hfirst] at hread
    exact hread
  · rw [hfirst] at hread
    obtain rfl : t = s := hread
    exact hf v _ _ _ hrest

/-- What is answered in the end does not matter. -/
theorem Atomic.bind_pure {a : Act α} (ha : Atomic a) (g : α → β) :
    Atomic (do let v ← a; pure (g v)) := by
  intro s s' x h
  rcases bind_eq_error_iff.mp h with hfirst | ⟨v, t, -, hrest⟩
  · exact ha _ _ _ hfirst
  · exact absurd (Prod.mk.inj hrest).1 nofun

theorem atomic_register (t : TableId) (f : Native) : Atomic (register t f) := by
  intro s s' x h
  cases hfrozen : (s.table t).frozen with
  | true =>
    rw [register_of_frozen hfrozen] at h
    exact (Prod.mk.inj h).2.symm
  | false =>
    rw [register_of_open hfrozen] at h
    exact absurd (Prod.mk.inj h).1 nofun

/-- All functions go to one table, so none is registered when one is refused. -/
theorem atomic_registerAll (t : TableId) (fs : List Native) : Atomic (registerAll t fs) := by
  intro s s' x h
  cases hfrozen : (s.table t).frozen with
  | false =>
    obtain ⟨s₁, hall, -⟩ := registerAll_ok hfrozen fs
    exact absurd (Prod.mk.inj (hall.symm.trans h)).1 nofun
  | true =>
    cases fs with
    | nil => exact absurd (Prod.mk.inj h).1 nofun
    | cons f rest =>
      rw [registerAll, bind_apply, register_of_frozen hfrozen] at h
      exact (Prod.mk.inj h).2.symm

theorem atomic_merge (target source : TableId) : Atomic (merge target source) :=
  (reads_ask _).bind_atomic fun fs => atomic_registerAll target fs

theorem atomic_enter (t : TableId) (home : Option EngineId) (e : Entry) :
    Atomic (enter t home e) :=
  (reads_ask _).bind_atomic fun _ => (reads_lift _).bind_atomic fun f =>
    (atomic_register t f).bind_pure fun _ => f

theorem atomic_registerMember (e : EngineId) (receiver : Option Kind) (m : Member) :
    Atomic (registerMember e receiver m) :=
  (reads_makeMember e "register" receiver m).bind_atomic fun f => (reads_ask _).bind_atomic fun _ =>
    atomic_register _ f

/-- **Of several members those before the rejected one are registered**, and nothing else is
changed. -/
theorem registerMembers_rejected {e : EngineId} {receiver : Option Kind} {ms : List Member}
    (h : registerMembers e receiver ms s = (.error x, s')) :
    ∃ taken m rest, ms = taken ++ m :: rest ∧ registerMembers e receiver taken s = (.ok (), s') ∧
      registerMember e receiver m s' = (.error x, s') := by
  induction ms generalizing s with
  | nil => exact absurd (Prod.mk.inj h).1 nofun
  | cons m rest ih =>
    rcases bind_eq_error_iff.mp h with hfirst | ⟨_, t, hfirst, hrest⟩
    · obtain rfl : s' = s := atomic_registerMember e receiver m _ _ _ hfirst
      exact ⟨[], m, rest, rfl, rfl, hfirst⟩
    · obtain ⟨taken, m', rest', rfl, htaken, hrejected⟩ := ih hrest
      exact ⟨m :: taken, m', rest', rfl, bind_eq_ok_iff.mpr ⟨(), t, hfirst, htaken⟩, hrejected⟩

theorem registerMembers_singleton (e : EngineId) (receiver : Option Kind) (m : Member) (s : Host) :
    registerMembers e receiver [m] s = registerMember e receiver m s := by
  rw [registerMembers, bind_apply]
  rcases registerMember e receiver m s with ⟨_ | _, _⟩ <;> rfl

end Act

/-- A single registration: of a function that has been made, of one that is yet to be made, of one
member of an engine, or of the functions of a table. -/
def Command.isSingle : Command → Bool
  | .register .. | .enter .. | .merge .. => true
  | .registerMembers _ _ ms => ms.length ≤ 1
  | _ => false

namespace Host

/-- A single registration that is rejected leaves everything as it is. -/
theorem atomic_perform {c : Command} (hc : c.isSingle = true) : Act.Atomic c.perform := by
  cases c with
  | register t f => exact Act.atomic_register t f
  | enter t home e => exact (Act.atomic_enter t home e).bind_pure fun _ => ()
  | merge target source => exact Act.atomic_merge target source
  | registerMembers e receiver ms =>
    intro s s' x h
    obtain ⟨taken, m, rest, rfl, htaken, -⟩ := Act.registerMembers_rejected h
    have hlength : (taken ++ m :: rest).length ≤ 1 := of_decide_eq_true hc
    have hempty : taken = [] := by
      rw [List.length_append, List.length_cons] at hlength
      exact List.length_eq_zero_iff.mp (by omega)
    rw [hempty] at htaken
    exact (Prod.mk.inj htaken).2.symm
  | _ => exact absurd hc nofun

/-- **What a rejected registration leaves.**  A single registration leaves everything as it is:
every table, the types of every engine, and all else.  A property is registered as its getter and
then its setter, so it leaves everything as it is where the getter is rejected, and leaves what
registering the getter alone does where the setter is. -/
theorem rejected_registration (s : Host) :
    (∀ (c : Command) (x : Failure) (s' : Host), c.isSingle = true →
      c.perform s = (.error x, s') → s' = s) ∧
    ∀ (e : EngineId) (receiver : Option Kind) (getter setter : Member) (x : Failure) (s' : Host),
      (Command.registerMembers e receiver [getter, setter]).perform s = (.error x, s') →
        s' = s ∧ (Command.registerMembers e receiver [getter]).perform s = (.error x, s) ∨
          (Command.registerMembers e receiver [getter]).perform s = (.ok (), s') ∧
            (Command.registerMembers e receiver [setter]).perform s' = (.error x, s') := by
  refine ⟨fun c x s' hc h => atomic_perform hc _ _ _ h, fun e receiver getter setter x s' h => ?_⟩
  simp only [Command.perform, Act.registerMembers_singleton]
  obtain ⟨taken, m, rest, hms, htaken, hrejected⟩ := Act.registerMembers_rejected h
  rcases taken with _ | ⟨first, _ | ⟨second, more⟩⟩
  · -- the getter is rejected
    obtain ⟨rfl, -⟩ := List.cons.inj hms
    obtain rfl : s = s' := (Prod.mk.inj htaken).2
    exact .inl ⟨rfl, hrejected⟩
  · -- the getter is taken, and the setter is rejected
    obtain ⟨hfirst, hrest⟩ := List.cons.inj hms
    obtain ⟨hsecond, -⟩ := List.cons.inj hrest
    rw [hfirst, hsecond, ← Act.registerMembers_singleton]
    exact .inr ⟨htaken, hrejected⟩
  · have hlength := congrArg List.length hms
    simp only [List.length_cons, List.length_nil, List.length_append] at hlength
    omega

/-- A property whose setter is rejected: the getter is in the table, which was empty before. -/
theorem not_atomic_property :
    (oneEngine.table 0).keys = [] ∧
      ((Command.registerMembers 0 (some (.object "Point")) [xGetter, xSetter]).perform
        oneEngine).1 = .error (.shape "set$x" (.accessorArity "Setter" 2 1)) ∧
      (((Command.registerMembers 0 (some (.object "Point")) [xGetter, xSetter]).apply
        oneEngine).table 0).keys = [⟨"get$x", [.object "Point"]⟩] := by
  refine ⟨rfl, rfl, ?_⟩
  decide +kernel

end Host
end ScriptHost
