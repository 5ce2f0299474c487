import ScriptHost.Member

/-!
# How making a function fails

A function is made before it is offered to a table or a builder, so what is wrong with it comes out
first.  Making it fails over its shape, over the limit on its parameters or over a feature that is
off; and these failures are of other classes than the refusal of a table or a builder that is
closed, so the class of a failure tells which of the two it was.

* `Failure.OfMaking`: the failures of making a function.
* `Failure.OfMaking.className_ne`: none of them is how something closed refuses.
* `Failure.making_member`, `Failure.making_entry`, `Failure.making_check`: making the function of a
  member or of an entry fails in these ways only.
-/

namespace ScriptHost

/-- The failures that making a function can end with. -/
inductive Failure.OfMaking : Failure → Prop where
  | shape (function : String) (e : ShapeError) : OfMaking (.shape function e)
  | limit (e : ConvertError) : OfMaking (.convert e)
  | feature (operation : String) (f : Feature) : OfMaking (.disabled operation f)

namespace Failure

variable {α β : Type} {x : Failure}

/-- What a closed table or a closed builder raises is of another class. -/
theorem OfMaking.className_ne (h : x.OfMaking) : x.className ≠ "RuntimeError" := by
  have hname : ∀ k : FailureKind, k ≠ .runtime → k.name ≠ FailureKind.runtime.name := by
    intro k hk
    cases k <;> first | exact absurd rfl hk | exact ne_of_beq_false rfl
  cases h with
  | shape function e =>
    cases e with
    | tooMany _ _ => exact hname .value nofun
    | stopped s =>
      cases s with
      | malformed _ => exact hname .badSyntax nofun
      | raised e => exact e.className_ne
    | _ => exact hname .type nofun
  | limit e =>
    refine hname e.kind ?_
    cases e <;> exact nofun
  | feature operation f => exact ne_of_beq_false rfl

/-- The computation fails as making a function does, if it fails. -/
def Making (y : Except Failure α) : Prop := ∀ x, y = .error x → x.OfMaking

theorem making_ok (a : α) : Making (.ok a) := fun _ h => absurd h nofun

theorem making_error (h : x.OfMaking) : Making (.error x : Except Failure α) :=
  fun _ heq => Except.error.inj heq ▸ h

theorem Making.bind {y : Except Failure α} {f : α → Except Failure β} (hy : Making y)
    (hf : ∀ a, Making (f a)) : Making (y >>= f) := by
  cases y with
  | error x => exact fun _ heq => hy _ (congrArg Except.error (Except.error.inj heq))
  | ok a => exact hf a

theorem making_mapError (function : String) (y : Except ShapeError α) :
    Making (y.mapError (Failure.shape function)) := by
  cases y with
  | error e => exact making_error (.shape function e)
  | ok a => exact making_ok a

theorem making_checkCount (r : ShapeRequest) (count : Nat) : Making (r.checkCount count) := by
  have hlimit : Making (ShapeRequest.checkCount.checkLimit r count) := by
    rw [ShapeRequest.checkCount.checkLimit]
    split
    · exact making_error (.limit _)
    · split
      · exact making_error (.shape _ _)
      · exact making_ok ()
  rw [ShapeRequest.checkCount]
  split
  · split
    · exact hlimit
    · exact making_error (.shape _ _)
  · exact hlimit

theorem making_ofHost (r : ShapeRequest) : Making (Native.ofHost r) := by
  rw [Native.ofHost.eq_def]
  split
  · exact making_error (.shape _ _)
  · exact (making_mapError _ _).bind fun _ => (making_checkCount r _).bind fun _ =>
      (making_mapError _ _).bind fun _ => (making_mapError _ _).bind fun _ =>
        (making_mapError _ _).bind fun _ => making_ok _

theorem making_withArity (f : Native) (n : Nat) (e : Nat → Nat → ShapeError) :
    Making (f.withArity n e) := by
  rw [Native.withArity]
  split
  · exact making_ok f
  · exact making_error (.shape _ _)

theorem making_member (m : Member) (site : Site) : Making (m.toNative site) := by
  rw [Member.toNative]
  split
  · exact making_ofHost _
  · exact (making_ofHost _).bind fun f => making_withArity f _ _

theorem making_entry (x : Entry) (limit : Except ConvertError Int) (home : Option EngineId) :
    Making (x.toNative limit home) := by
  rw [Entry.toNative]
  split
  · exact making_ofHost _
  · exact (making_ofHost _).bind fun f => making_withArity f _ _

theorem making_check (m : Member) (verb : String) (fs : Features) : Making (m.check verb fs) := by
  rw [Member.check]
  split
  · exact making_ok ()
  · split
    · exact making_ok ()
    · exact making_error (.feature _ _)

end Failure

end ScriptHost
