import ScriptHost.Proofs.Function.Making
import ScriptHost.Proofs.Host.Building

/-!
# A builder that has been left

Leaving a builder closes it for good.  Whatever happens to its engine afterwards, the builder takes
no further member and no name, and leaving it another time does nothing.

Every attempt fails, but not always for the reason that the builder is closed.  A member is made
before it is offered, so the features of the engine are asked first and the function is looked at
second, and the builder comes last.  An accessor whose feature is off is reported as such, and so is
a function without a shape that scripts can call: a closed builder answers for itself just where an
open one would have taken the member.

* `Host.Closes`: what becomes of all that a closed builder is given.
* `Host.closes_of_finalized`: a builder that is closed refuses.
* `Act.finalized_closeBuilder`: a builder that has been left is closed, also if leaving it fails
  half-way.
* `Host.closes_after_leaving`: both together, in every later state.
* `Host.not_closed_first`: two members that a closed builder is not asked about.
-/

namespace ScriptHost

/-! ## What a closed builder refuses -/

namespace Host

variable {s : Host} {b : BuilderId} {state : Builder}

/-- Where the functions of a builder are made. -/
def workshop (s : Host) (state : Builder) : Site :=
  ⟨s.config.maxArity, some state.engine, some state.kind⟩

/-- An open builder would take the member: the features of its engine allow it, and a function can
be made of it. -/
def Takes (s : Host) (state : Builder) (m : Member) : Prop :=
  m.check "with" (s.engine state.engine).features = .ok () ∧
    ∃ f, m.toNative (s.workshop state) = .ok f

/-- What becomes of all that a closed builder is given: whatever it is, the state is as before, and
everything but leaving the builder fails. -/
structure Closes (s : Host) (b : BuilderId) (state : Builder) : Prop where
  builder : s.builders[b]? = some state
  nameType : ∀ name, Act.nameType b name s = (.error .finalized, s)
  /-- The features are asked first, the function is looked at second, the builder comes last. -/
  addMembers : ∀ m rest, Act.addMembers b (m :: rest) s =
    ((m.check "with" (s.engine state.engine).features).bind fun _ =>
      (m.toNative (s.workshop state)).bind fun _ => .error .finalized, s)
  /-- So it always fails … -/
  fails : ∀ m rest, ∃ x, Act.addMembers b (m :: rest) s = (.error x, s)
  /-- … and with the class of failure of a closed builder just where an open one would take it. -/
  className_iff : ∀ m rest x, Act.addMembers b (m :: rest) s = (.error x, s) →
    (x.className = "RuntimeError" ↔ s.Takes state m)
  leave : Act.closeBuilder b s = (.ok (), s)

theorem addMembers_of_finalized (hstate : s.builders[b]? = some state)
    (hclosed : state.finalized = true) (m : Member) (rest : List Member) :
    Act.addMembers b (m :: rest) s =
      ((m.check "with" (s.engine state.engine).features).bind fun _ =>
        (m.toNative (s.workshop state)).bind fun _ => .error .finalized, s) := by
  rw [Act.addMembers, Act.bind_apply, Act.addMember, Act.builder, Act.ask_bind_apply, hstate,
    Option.getD_some, Act.bind_apply, Act.makeMember_apply, hclosed, workshop]
  cases m.check "with" (s.engine state.engine).features with
  | error x => rfl
  | ok _ =>
    simp only [Except.bind]
    cases m.toNative ⟨s.config.maxArity, some state.engine, some state.kind⟩ <;> rfl

/-- **A closed builder refuses.** -/
theorem closes_of_finalized (hstate : s.builders[b]? = some state)
    (hclosed : state.finalized = true) : s.Closes b state where
  builder := hstate
  nameType name := by
    rw [Act.nameType, Act.builder, Act.ask_bind_apply, hstate, Option.getD_some, if_pos hclosed]
    rfl
  addMembers := addMembers_of_finalized hstate hclosed
  fails m rest := by
    rw [addMembers_of_finalized hstate hclosed]
    cases m.check "with" (s.engine state.engine).features with
    | error x => exact ⟨x, rfl⟩
    | ok _ =>
      cases m.toNative (s.workshop state) with
      | error x => exact ⟨x, rfl⟩
      | ok f => exact ⟨.finalized, rfl⟩
  className_iff m rest x hx := by
    rw [addMembers_of_finalized hstate hclosed] at hx
    replace hx := congrArg Prod.fst hx
    rw [Takes]
    cases hcheck : m.check "with" (s.engine state.engine).features with
    | error y =>
      rw [hcheck] at hx
      have hclass := (Failure.making_check m _ _ y hcheck).className_ne
      rw [Except.error.inj hx] at hclass
      refine ⟨fun h => absurd h hclass, ?_⟩
      rintro ⟨hok, -⟩
      contradiction
    | ok _ =>
      rw [hcheck] at hx
      cases hmake : m.toNative (s.workshop state) with
      | error y =>
        rw [hmake] at hx
        have hclass := (Failure.making_member m _ y hmake).className_ne
        rw [Except.error.inj hx] at hclass
        refine ⟨fun h => absurd h hclass, ?_⟩
        rintro ⟨-, f, hok⟩
        contradiction
      | ok f =>
        rw [hmake] at hx
        rw [← Except.error.inj hx]
        exact ⟨fun _ => ⟨rfl, f, rfl⟩, fun _ => rfl⟩
  leave := Act.closeBuilder_of_finalized hstate hclosed

end Host

/-! ## Leaving closes -/

/-- A builder is closed before anything is registered, so it is closed even if that fails. -/
theorem Act.finalized_closeBuilder {s : Host} {b : BuilderId} {state : Builder}
    (hstate : s.builders[b]? = some state) :
    (closeBuilder b s).2.builders[b]? = some { state with finalized := true } := by
  cases hopen : state.finalized with
  | true =>
    rw [closeBuilder_of_finalized hstate hopen, ← hopen]
    exact hstate
  | false =>
    have hset := Host.builders_setBuilder_self hstate { state with finalized := true }
    have hrest := Host.along_finalized b
    rw [closeBuilder, builder, ask_bind_apply, hstate, Option.getD_some, hopen,
      if_neg Bool.false_ne_true, setBuilder_bind_apply]
    refine (moves_ask hrest _).bind hrest (fun _ => ?_) _ _ hset rfl
    exact (moves_registerAll hrest _ _).bind hrest fun _ =>
      (moves_registerKind hrest _ _ _).bind hrest fun _ =>
        (moves_ask hrest _).bind hrest fun _ => moves_log hrest _ _ _

namespace Host

/-- **A builder that has been left takes nothing.**  Whenever a builder is left, whether or not that
succeeds, it is as it was but closed in every later state, whatever happens in between, and there
everything it is given is refused and nothing is changed. -/
theorem closes_after_leaving {s : Host} {b : BuilderId} {state : Builder}
    (hstate : s.builders[b]? = some state) (cs : List Command) :
    (((Command.closeBuilder b).apply s).after cs).Closes b { state with finalized := true } := by
  have hleft := Act.finalized_closeBuilder hstate
  have hlater := after_along (along_finalized b) (fun _ _ _ h _ => h) _ cs _ hleft rfl
  exact closes_of_finalized hlater rfl

/-- The scope of a builder on an engine without maps of objects. -/
def withoutMaps : Host :=
  Host.initial.after [.newEngine (some (Features.all.without [.objectMaps])) false,
    .openBuilder 0 (.object "Point")]

/-- Something that is no function. -/
def xNumber : Member := ⟨.inr "x", false, .other (.scalar (.int 1)), []⟩

theorem closes_after_leaving_withoutMaps :
    withoutMaps.builders[0]? = some ⟨0, .object "Point", none, [], false⟩ ∧
      (((Command.closeBuilder 0).apply withoutMaps).after [.openBuilder 0 .int]).Closes 0
        ⟨0, .object "Point", none, [], true⟩ := by
  have hstate : withoutMaps.builders[0]? = some ⟨0, .object "Point", none, [], false⟩ := rfl
  exact ⟨hstate, closes_after_leaving hstate [.openBuilder 0 .int]⟩

/-- Two members that a closed builder is not asked about: a property where the feature is off, and
something that is no function. -/
theorem not_closed_first :
    let left := (Command.closeBuilder 0).apply withoutMaps
    (left.builders[0]?.map Builder.finalized) = some true ∧
      (Act.addMembers 0 [xGetter] left).1 = .error (.disabled "with_get" .objectMaps) ∧
      (Failure.disabled "with_get" .objectMaps).className = "FeatureDisabledError" ∧
      (Act.addMembers 0 [xNumber] left).1 = .error (.shape "x" (.notCallable "1")) ∧
      (Failure.shape "x" (.notCallable "1")).className = "TypeError" := by
  exact ⟨rfl, rfl, rfl, rfl, rfl⟩

end Host
end ScriptHost
