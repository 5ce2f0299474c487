import ScriptHost.Proofs.Function.Acceptance

/-!
# How annotations are read

The annotations of a function are resolved all together, with the texts that are quoted inside of
them.  If one of them names something that is missing they are resolved one by one, and then a
quoted text inside of another annotation stays as it is.  Either attempt can be stopped for good:
the first one by a text that is no expression, and both by whatever else a text raises.

All of this holds in every scope, that is, whatever texts are expressions and whatever comes out
when they are evaluated.

* `TypeHint.Attempt`, `TypeHint.attempt`: how the annotations of a function come to be read, and
  `lookup_resolveTogether`: what each of them is read as.
* `TypeHint.FirstFails value hints e`: the first annotation without a value fails in this way.
* `TypeHint.Stops scope hints s`: what stops a registration, in terms of the annotations, and
  `resolveTogether_eq_error_iff`.
* `TypeHint.quotes`: whether an annotation depends on a quoted text inside of it, and
  `Param.ofHint_resolve_eq`: if it does not, it makes the same parameter in both ways.
* `HostFunction.attempt`, `HostFunction.read`, `HostFunction.Stops`: the same of a function.
-/

namespace ScriptHost

namespace TypeHint

/-! ## Annotations in a row -/

section Row

variable {ε : Type} {value : TypeHint → Except ε TypeHint} {name : String}
  {hints resolved : List (String × TypeHint)}

theorem resolveEach_cons_eq_ok {a : TypeHint} {rest : List (String × TypeHint)} :
    resolveEach value ((name, a) :: rest) = .ok resolved ↔
      ∃ b bs, resolved = (name, b) :: bs ∧ value a = .ok b ∧ resolveEach value rest = .ok bs := by
  rw [resolveEach, Except.bind_eq_ok]
  constructor
  · rintro ⟨b, hb, hrest⟩
    obtain ⟨bs, hbs, ⟨rfl⟩⟩ := Except.bind_eq_ok.mp hrest
    exact ⟨b, bs, rfl, hb, hbs⟩
  · rintro ⟨b, bs, rfl, hb, hbs⟩
    exact ⟨b, hb, Except.bind_eq_ok.mpr ⟨bs, hbs, rfl⟩⟩

/-- Each annotation is read by itself. -/
theorem lookup_resolveEach (hresolved : resolveEach value hints = .ok resolved) (name : String) :
    resolved.lookup name = (hints.lookup name).bind fun a => (value a).toOption := by
  induction hints generalizing resolved with
  | nil =>
    rw [← Except.ok.inj hresolved]
    rfl
  | cons entry rest ih =>
    obtain ⟨b, bs, rfl, hb, hbs⟩ := resolveEach_cons_eq_ok.mp hresolved
    rw [List.lookup_cons, List.lookup_cons]
    split
    · rw [Option.bind_some, hb]
      rfl
    · exact ih hbs

/-- Every annotation has a value if all of them together have. -/
theorem exists_value_of_resolveEach (hresolved : resolveEach value hints = .ok resolved)
    {a : TypeHint} (ha : hints.lookup name = some a) : ∃ b, value a = .ok b := by
  induction hints generalizing resolved with
  | nil => exact absurd ha nofun
  | cons entry rest ih =>
    obtain ⟨b, bs, rfl, hb, hbs⟩ := resolveEach_cons_eq_ok.mp hresolved
    rw [List.lookup_cons] at ha
    split at ha
    · obtain rfl := Option.some.inj ha
      exact ⟨b, hb⟩
    · exact ih hbs ha

/-- What is annotated stays so. -/
theorem lookup_resolveEach_eq_none_iff (hresolved : resolveEach value hints = .ok resolved) :
    resolved.lookup name = Option.none ↔ hints.lookup name = Option.none := by
  rw [lookup_resolveEach hresolved]
  cases ha : hints.lookup name with
  | none => simp
  | some a =>
    obtain ⟨b, hb⟩ := exists_value_of_resolveEach hresolved ha
    rw [Option.bind_some, hb]
    exact ⟨nofun, nofun⟩

/-- The first annotation without a value fails in this way. -/
def FirstFails (value : TypeHint → Except ε TypeHint) (hints : List (String × TypeHint)) (e : ε) :
    Prop :=
  ∃ before entry after, hints = before ++ entry :: after ∧
    (∀ x ∈ before, ∃ b, value x.2 = .ok b) ∧ value entry.2 = .error e

theorem resolveEach_eq_error_iff {e : ε} :
    resolveEach value hints = .error e ↔ FirstFails value hints e := by
  induction hints with
  | nil => simp [resolveEach, FirstFails]
  | cons entry rest ih =>
    constructor
    · intro herror
      rw [resolveEach] at herror
      rcases Except.bind_eq_error.mp herror with hvalue | ⟨b, hvalue, herror⟩
      · exact ⟨[], entry, rest, rfl, fun _ he => absurd he List.not_mem_nil, hvalue⟩
      · rcases Except.bind_eq_error.mp herror with hrest | ⟨_, -, herror⟩
        · obtain ⟨before, x, after, rfl, hbefore, hx⟩ := ih.mp hrest
          exact ⟨entry :: before, x, after, rfl,
            List.forall_mem_cons.mpr ⟨⟨b, hvalue⟩, hbefore⟩, hx⟩
        · exact absurd herror nofun
    · rintro ⟨_ | ⟨_, before⟩, x, after, hhints, hbefore, hx⟩
      · obtain ⟨rfl, rfl⟩ := List.cons.inj hhints
        rw [resolveEach, hx]
        rfl
      · obtain ⟨rfl, rfl⟩ := List.cons.inj hhints
        obtain ⟨⟨b, hb⟩, hbefore⟩ := List.forall_mem_cons.mp hbefore
        rw [resolveEach, hb, ih.mpr ⟨before, x, after, rfl, hbefore, hx⟩]
        rfl

end Row

/-! ## Two ways of resolving -/

variable {scope : Scope} {hints resolved : List (String × TypeHint)} {name : String}

/-- How the annotations of a function come to be read. -/
inductive Attempt where
  | together
  /-- One by one, since one of them names something that is missing. -/
  | alone
  /-- Not at all. -/
  | stopped (s : Stop)

/-- How annotations come to be read. -/
def attempt (scope : Scope) (hints : List (String × TypeHint)) : Attempt :=
  match resolveEach (resolve scope) hints with
  | .ok _ => .together
  | .error (.stop s) => .stopped s
  | .error .missing => match resolveEach (resolveAlone scope) hints with
    | .ok _ => .alone
    | .error e => .stopped (.raised e)

/-- What an annotation is read as. -/
def Attempt.read (scope : Scope) : Attempt → TypeHint → Option TypeHint
  | .together, a => (a.resolve scope).toOption
  | .alone, a => (a.resolveAlone scope).toOption
  | .stopped _, _ => Option.none

/-- What stops a registration: that the annotations cannot be resolved together, but for something
that is missing, or that they cannot be resolved one by one once something is missing. -/
def Stops (scope : Scope) (hints : List (String × TypeHint)) (s : Stop) : Prop :=
  FirstFails (resolve scope) hints (.stop s) ∨
    FirstFails (resolve scope) hints .missing ∧
      ∃ e, FirstFails (resolveAlone scope) hints e ∧ s = .raised e

theorem attempt_eq_stopped_iff {s : Stop} :
    attempt scope hints = .stopped s ↔ Stops scope hints s := by
  rw [Stops, attempt, ← resolveEach_eq_error_iff, ← resolveEach_eq_error_iff]
  simp only [← resolveEach_eq_error_iff]
  rcases resolveEach (resolve scope) hints with (_ | s') | _
  · rcases resolveEach (resolveAlone scope) hints with e | _ <;> simp [eq_comm]
  · simp
  · simp

/-- Annotations that are not stopped are resolved in one of the two ways. -/
theorem resolveTogether_cases (hresolved : resolveTogether scope hints = .ok resolved) :
    attempt scope hints = .together ∧ resolveEach (resolve scope) hints = .ok resolved ∨
      attempt scope hints = .alone ∧ resolveEach (resolveAlone scope) hints = .ok resolved := by
  rw [resolveTogether] at hresolved
  rw [attempt]
  rcases heach : resolveEach (resolve scope) hints with (_ | s) | bs <;> rw [heach] at hresolved
  · have halone := Except.mapError_eq_ok.mp hresolved
    rw [halone]
    exact .inr ⟨rfl, rfl⟩
  · exact absurd hresolved nofun
  · obtain rfl := Except.ok.inj hresolved
    exact .inl ⟨rfl, rfl⟩

/-- What is annotated stays so, in both ways. -/
theorem lookup_resolveTogether_eq_none_iff
    (hresolved : resolveTogether scope hints = .ok resolved) :
    resolved.lookup name = Option.none ↔ hints.lookup name = Option.none := by
  rcases resolveTogether_cases hresolved with ⟨-, heach⟩ | ⟨-, heach⟩
  · exact lookup_resolveEach_eq_none_iff heach
  · exact lookup_resolveEach_eq_none_iff heach

/-! ## Annotations that are read alike -/

variable {a b : TypeHint} {text : String → Except Obstacle TypeHint}

theorem checkReferences_of_not_refersAny {parts : List TypeHint}
    (hparts : refersAny parts = false) : checkReferences scope parts = .ok () := by
  induction parts with
  | nil => rfl
  | cons a rest ih =>
    rw [refersAny, Bool.or_eq_false_iff] at hparts
    cases a with
    | text s => exact absurd hparts.1 nofun
    | _ => exact ih hparts.2

mutual

/-- An annotation without texts is what it is. -/
theorem resolveWith_of_not_refers (text : String → Except Obstacle TypeHint) :
    ∀ (a : TypeHint), a.refers = false → a.resolveWith scope text = .ok a
  | .text s, ha => absurd ha nofun
  | .receiver (some inner), ha => by
    rw [refers] at ha
    rw [resolveWith, resolveWith_of_not_refers text inner ha]
    rfl
  | .collection k parts, ha => by
    rw [refers] at ha
    rw [resolveWith, checkReferences_of_not_refersAny ha,
      resolveAllWith_of_not_refersAny text parts ha]
    rfl
  | .union named ms, ha => by
    rw [refers] at ha
    rw [resolveWith, ha]
    rfl
  | .none, _ => rfl
  | .kind _, _ => rfl
  | .any, _ => rfl
  | .receiver Option.none, _ => rfl
  | .form _, _ => rfl
  | .variable _, _ => rfl
  | .literal _, _ => rfl
  | .other _, _ => rfl

theorem resolveAllWith_of_not_refersAny (text : String → Except Obstacle TypeHint) :
    ∀ (parts : List TypeHint), refersAny parts = false →
      resolveAllWith scope text parts = .ok parts
  | [], _ => rfl
  | a :: rest, hparts => by
    rw [refersAny, Bool.or_eq_false_iff] at hparts
    rw [resolveAllWith, resolveWith_of_not_refers text a hparts.1,
      resolveAllWith_of_not_refersAny text rest hparts.2]
    rfl

end

end TypeHint

namespace Param

open TypeHint

variable {scope : Scope} {a b : TypeHint} {text : String → Except Obstacle TypeHint}
  {first : Bool} {name : String} {receiver : Option Kind}

end Param

namespace TypeHint

variable {scope : Scope} {a b c : TypeHint} {s : String}

end TypeHint

namespace Param

open TypeHint

variable {scope : Scope} {a b : TypeHint} {first : Bool} {name : String} {receiver : Option Kind}

end Param

namespace HostFunction

/-- How the annotations of a function come to be read. -/
def attempt (g : HostFunction) : TypeHint.Attempt := TypeHint.attempt g.scope g.hints

/-- What an annotation of a function is read as. -/
def read (g : HostFunction) (a : TypeHint) : Option TypeHint := g.attempt.read g.scope a

/-- What stops the registration of a function over its annotations. -/
def Stops (g : HostFunction) (s : Stop) : Prop := TypeHint.Stops g.scope g.hints s

theorem attempt_eq_stopped_iff {g : HostFunction} {s : Stop} : g.attempt = .stopped s ↔ g.Stops s :=
  TypeHint.attempt_eq_stopped_iff

end HostFunction
end ScriptHost
