import ScriptHost.Proofs.Call.Binding
import ScriptHost.Proofs.Heap.Showing

/-!
# What leaves a call that fails

A fault that escapes the body of a function is passed on if the function may fail that way, and
wrapped otherwise.  Wrapping puts the text of the cause into the message, and a cause of the host
can carry any value, also one that has no text: a text may fail over a long integer, over a number
that cannot be shown, or because it goes on for ever (`Proofs.Heap.Showing`).  Then the failure of
making the text takes the place of the wrapped fault, and it is no script error.

This is the only way in which anything but a script error leaves a call.  It does not add up: a
failure of making a text has a text itself (`Fault.message_ofConvert`), so one frame further out it
is wrapped like any other.

* `Fault.Wordless`, `Fault.exists_message_eq_error_iff`: the faults without a message.
* `Native.Wraps`, `Native.isScriptError_escape_iff`: what leaves one function.
* `Linkage.Fails`, `Linkage.isScriptError_or_fails_of_invoke`, `Linkage.call_cases`: an invocation
  fails over its arguments or with what leaves its function, a call by name also over its name.
* `Linkage.Answers`, `Linkage.answers_iff`: whatever ends a call is a container or a script error,
  unless the function that was called is to wrap a fault without a message.
* `Linkage.not_answers_greatestSingle`: and that can happen.
-/

namespace ScriptHost

variable {h h' : Heap} {places : Precision} {e cause : Fault} {f : Native}

/-! ## Faults without a message -/

/-- A fault has no message: it was raised with a value that has no text.  A missing key is shown
in its exact form. -/
def Fault.Wordless (h : Heap) (places : Precision) : Fault → Prop
  | .raised .key v => ¬ h.Showable v
  | .raised _ v => ¬ h.Presentable places v
  | _ => False

namespace Fault

theorem exists_map_eq_error_iff {x : Shown} :
    (∃ c, x.map String.ofList = .error c) ↔ ¬ x.isOk = true := by
  cases x <;> simp [Except.map, Except.toBool]

/-- **Only a value without a text leaves a fault without a message.** -/
theorem exists_message_eq_error_iff :
    (∃ c, e.message h places = .error c) ↔ e.Wordless h places := by
  cases e with
  | raised kind v =>
    cases kind with
    | key => exact exists_map_eq_error_iff.trans (not_congr Heap.isOk_exact_iff)
    | _ => exact exists_map_eq_error_iff.trans (not_congr Heap.isOk_shown_iff)
  | _ => simp [message, Wordless]

/-- No failed conversion is meant for scripts. -/
theorem not_isScriptError_ofConvert (c : ConvertError) : (ofConvert c).isScriptError = false := by
  cases c <;> rfl

/-- A failed conversion has a message, so it is wrapped like any other fault one call further
out. -/
theorem message_ofConvert (c : ConvertError) : (ofConvert c).message h places = .ok c.message := by
  have htext : h.shownText places (.string c.message) = .ok c.message :=
    congrArg Except.ok String.ofList_toList
  cases c <;> exact htext

end Fault

/-! ## Functions -/

namespace Native

/-- A function wraps the faults that it does not pass on. -/
def Wraps (f : Native) (e : Fault) : Prop := (e.isScriptError && f.fallible) = false

instance (f : Native) (e : Fault) : Decidable (f.Wraps e) :=
  inferInstanceAs (Decidable (_ = false))

/-- A fault in the layer of a function. -/
def layer (f : Native) (e : Fault) (text : String) : Fault :=
  .escaped f.name e (e.className ++ ": " ++ text)

theorem escape_of_not_wraps (hpass : ¬ f.Wraps e) : f.escape places e h = e := by
  rw [escape, if_pos (Bool.not_eq_false _ ▸ hpass)]

theorem escape_of_wraps (hwraps : f.Wraps e) {text : String}
    (htext : e.message h places = .ok text) : f.escape places e h = f.layer e text := by
  rw [escape, if_neg (Bool.eq_false_iff.mp hwraps), htext, layer]

theorem escape_of_wordless (hwraps : f.Wraps e) {c : ConvertError}
    (herror : e.message h places = .error c) : f.escape places e h = .ofConvert c := by
  rw [escape, if_neg (Bool.eq_false_iff.mp hwraps), herror]

/-- **What leaves a function is a script error, unless it was to wrap a fault without a
message.** -/
theorem isScriptError_escape_iff :
    (f.escape places e h).isScriptError = true ↔ ¬ (f.Wraps e ∧ e.Wordless h places) := by
  by_cases hwraps : f.Wraps e
  · rw [← Fault.exists_message_eq_error_iff]
    cases htext : e.message h places with
    | ok text => simp [escape_of_wraps hwraps htext, layer, Fault.isScriptError]
    | error c => simp [escape_of_wordless hwraps htext, Fault.not_isScriptError_ofConvert, hwraps]
  · rw [escape_of_not_wraps hwraps]
    rw [Wraps, Bool.not_eq_false, Bool.and_eq_true] at hwraps
    simp [hwraps.1, Wraps, hwraps.2]

end Native

/-! ## Calls -/

/-- An invocation binds the values to the parameters, and the body gets `natives`. -/
structure Native.Binds (f : Native) (values : List Value) (h : Heap) (natives : List Value)
    (h' : Heap) : Prop where
  count : values.length = f.arity
  bound : bindAll f.name 1 f.params values h = some (.ok natives, h')

/-- Binding fails over the kind of an argument. -/
theorem exists_argumentKind_of_bindAll {function : String} {position : Nat} {ps : List Param}
    {vs : List Value} (herror : bindAll function position ps vs h = some (.error e, h')) :
    ∃ i expected actual, e = .argumentKind function i expected actual := by
  induction ps generalizing position vs h with
  | nil => exact absurd herror nofun
  | cons p ps ih =>
    cases vs with
    | nil => exact absurd herror nofun
    | cons v vs =>
      rw [bindAll_cons_apply] at herror
      split at herror
      · split at herror
        · exact absurd herror nofun
        · rename_i hrest
          obtain ⟨⟨rfl⟩, rfl⟩ := Prod.mk.inj (Option.some.inj herror)
          exact ih hrest
        · exact absurd herror nofun
      · rename_i hbind
        obtain ⟨⟨rfl⟩, rfl⟩ := Prod.mk.inj (Option.some.inj herror)
        rw [Param.bind_eq] at hbind
        split at hbind
        · exact absurd hbind nofun
        · exact ⟨_, _, _, (Except.error.inj hbind).symm⟩

/-- Arguments can always be put into containers. -/
theorem exists_containAll_eq_ok (vs : List Value) (h : Heap) :
    ∃ cs h', containAll vs h = some (.ok cs, h') := by
  induction vs generalizing h with
  | nil => exact ⟨[], h, rfl⟩
  | cons v vs ih =>
    obtain ⟨cs, h', hrest⟩ := ih (h.contain v).2
    refine ⟨.ref (h.contain v).1 :: cs, h', ?_⟩
    rw [containAll, Run.bind_apply]
    simp only [Run.contained, Run.step, Run.bind_apply, hrest]
    rfl

namespace Linkage

variable {link : Linkage} {depth : Nat} {engine : EngineId} {name : String}
  {arguments values natives : List Value} {h₁ : Heap} {v : Value}

/-- A call by name puts its arguments into containers and finds a function for them. -/
structure Finds (link : Linkage) (engine : EngineId) (name : String) (arguments : List Value)
    (h : Heap) (f : Native) (values : List Value) (h' : Heap) : Prop where
  contained : containAll arguments h = some (.ok values, h')
  found : link.find engine name (kindsOf h' values) = some f

/-- What the body of a function is evaluated with. -/
def frame (link : Linkage) (depth : Nat) (f : Native) (natives : List Value) : Frame :=
  ⟨natives, link.places, link.answer depth f⟩

/-- An invocation, one of so many that may be open at once, comes to the body of its function, and
the body ends with a fault. -/
def Fails (link : Linkage) (depth : Nat) (f : Native) (values : List Value) (h : Heap)
    (cause : Fault) (h' : Heap) : Prop :=
  ∃ n natives h₁, depth = n + 1 ∧ f.Binds values h natives h₁ ∧
    Body.run (link.frame n f natives) f.body h₁ = some (.error cause, h')

theorem serve_apply (natives : List Value) (h : Heap) :
    link.serve depth f natives h = match Body.run (link.frame depth f natives) f.body h with
      | some (.ok v, h') => Run.contained v h'
      | some (.error cause, h') => some (.error (f.escape link.places cause h'), h')
      | none => none := by
  rw [serve, ← frame, Run.bind_apply, Run.onFault]
  rcases Body.run (link.frame depth f natives) f.body h with _ | ⟨_ | _, _⟩ <;> rfl

/-- A call ends with a container or with what leaves its function. -/
theorem serve_eq_error_iff :
    link.serve depth f natives h = some (.error e, h') ↔
      ∃ cause, Body.run (link.frame depth f natives) f.body h = some (.error cause, h') ∧
        e = f.escape link.places cause h' := by
  rw [serve_apply]
  rcases Body.run (link.frame depth f natives) f.body h with _ | ⟨cause | v, g⟩
  · simp
  · constructor
    · intro heq
      obtain ⟨⟨rfl⟩, rfl⟩ := Prod.mk.inj (Option.some.inj heq)
      exact ⟨cause, rfl, rfl⟩
    · rintro ⟨_, ⟨rfl⟩, rfl⟩
      rfl
  · simp [Run.contained, Run.step]

theorem invoke_of_binds (hbinds : f.Binds values h natives h₁) :
    link.invoke (depth + 1) f values h = link.serve depth f natives h₁ := by
  rw [invoke_succ, if_neg (not_not.mpr hbinds.count), Run.bind_apply, hbinds.bound]

theorem invoke_of_fails (hfails : link.Fails depth f values h cause h') :
    link.invoke depth f values h = some (.error (f.escape link.places cause h'), h') := by
  obtain ⟨n, natives, h₁, rfl, hbinds, hbody⟩ := hfails
  rw [invoke_of_binds hbinds]
  exact serve_eq_error_iff.mpr ⟨cause, hbody, rfl⟩

/-- An invocation fails over its arguments or with what leaves its function. -/
theorem isScriptError_or_fails_of_invoke
    (herror : link.invoke depth f values h = some (.error e, h')) :
    e.isScriptError = true ∨
      ∃ cause, link.Fails depth f values h cause h' ∧ e = f.escape link.places cause h' := by
  cases depth with
  | zero => exact absurd herror nofun
  | succ n =>
    rw [invoke_succ] at herror
    split at herror
    · obtain ⟨⟨rfl⟩, rfl⟩ := Prod.mk.inj (Option.some.inj herror)
      exact .inl rfl
    · rename_i hcount
      rw [Run.bind_apply] at herror
      split at herror
      · rename_i natives h₁ hbound
        obtain ⟨cause, hbody, rfl⟩ := serve_eq_error_iff.mp herror
        exact .inr ⟨cause, ⟨n, natives, h₁, rfl, ⟨not_not.mp hcount, hbound⟩, hbody⟩, rfl⟩
      · rename_i hbound
        obtain ⟨⟨rfl⟩, rfl⟩ := Prod.mk.inj (Option.some.inj herror)
        obtain ⟨_, _, _, rfl⟩ := exists_argumentKind_of_bindAll hbound
        exact .inl rfl
      · exact absurd herror nofun

/-! ## Answers -/

/-- The own function of an invocation is to wrap a fault that has no message. -/
def Speechless (link : Linkage) (depth : Nat) (f : Native) (values : List Value) (h h' : Heap) :
    Prop :=
  ∃ cause, link.Fails depth f values h cause h' ∧ f.Wraps cause ∧ cause.Wordless h' link.places

/-- What a call is to end with: a container, or a fault that scripts are meant to see. -/
def Answers (h' : Heap) : Except Fault Value → Prop
  | .ok v => ∃ a w, v = .ref a ∧ h'.get? a = some (.dynamic w)
  | .error e => e.isScriptError = true

theorem exists_get?_contain (h : Heap) (v : Value) :
    ∃ w, (h.contain v).2.get? (h.contain v).1 = some (.dynamic w) :=
  ⟨_, h.get?_contain v⟩

/-- A result comes out of a call in a container. -/
theorem answers_of_serve (hrun : link.serve depth f natives h = some (.ok v, h')) :
    Answers h' (.ok v) := by
  rw [serve_apply] at hrun
  split at hrun
  · rename_i result h₁ hbody
    obtain ⟨⟨rfl⟩, rfl⟩ := Prod.mk.inj (Option.some.inj hrun)
    exact ⟨_, (exists_get?_contain h₁ result).imp fun w hw => ⟨rfl, hw⟩⟩
  · exact absurd hrun nofun
  · exact absurd hrun nofun

theorem answers_of_invoke_eq_ok (hrun : link.invoke depth f values h = some (.ok v, h')) :
    Answers h' (.ok v) := by
  cases depth with
  | zero => exact absurd hrun nofun
  | succ n =>
    rw [invoke_succ] at hrun
    split at hrun
    · exact absurd hrun nofun
    · rw [Run.bind_apply] at hrun
      split at hrun
      · exact answers_of_serve hrun
      · exact absurd hrun nofun
      · exact absurd hrun nofun

/-- An invocation ends as it is meant to, unless its function is to wrap a fault without a
message. -/
theorem answers_invoke_iff {outcome : Except Fault Value}
    (hrun : link.invoke depth f values h = some (outcome, h')) :
    Answers h' outcome ↔ ¬ link.Speechless depth f values h h' := by
  constructor
  · rintro hanswer ⟨cause, hfails, hspeechless⟩
    obtain ⟨rfl, -⟩ := Prod.mk.inj (Option.some.inj (hrun.symm.trans (invoke_of_fails hfails)))
    exact Native.isScriptError_escape_iff.mp hanswer hspeechless
  · intro hspeechless
    cases outcome with
    | ok v => exact answers_of_invoke_eq_ok hrun
    | error e =>
      rcases isScriptError_or_fails_of_invoke hrun with he | ⟨cause, hfails, rfl⟩
      · exact he
      · exact Native.isScriptError_escape_iff.mpr fun hwraps => hspeechless ⟨cause, hfails, hwraps⟩

theorem call_of_finds (hfinds : link.Finds engine name arguments h f values h₁) :
    link.call depth engine name arguments h = link.invoke depth f values h₁ :=
  callWith_apply hfinds.contained hfinds.found

/-- A call by name either invokes the function it finds or says that there is none. -/
theorem call_cases (link : Linkage) (depth : Nat) (engine : EngineId) (name : String)
    (arguments : List Value) (h : Heap) :
    (∃ f values h₁, link.Finds engine name arguments h f values h₁) ∨
      ∃ kinds h', link.call depth engine name arguments h =
        some (.error (.notFound name kinds), h') := by
  obtain ⟨values, h₁, hcontained⟩ := exists_containAll_eq_ok arguments h
  cases hfound : link.find engine name (kindsOf h₁ values) with
  | some f => exact .inl ⟨f, values, h₁, hcontained, hfound⟩
  | none =>
    refine .inr ⟨(kindsOf h₁ values).map (link.kindName engine), h₁, ?_⟩
    rw [call, callWith, Run.bind_apply, hcontained]
    simp only [Run.bind_apply, Run.heap]
    rw [← kindsOf, hfound]
    rfl

/-- **Everything that leaves a call is a container or a script error, but for one case**: the
function that was called is to wrap a fault, and the value behind that fault has no text. -/
theorem answers_iff (link : Linkage) (depth : Nat) (h h' : Heap) (outcome : Except Fault Value) :
    (∀ f values, link.invoke depth f values h = some (outcome, h') →
      (Answers h' outcome ↔ ¬ link.Speechless depth f values h h')) ∧
    ∀ engine name arguments, link.call depth engine name arguments h = some (outcome, h') →
      (Answers h' outcome ↔ ¬ ∃ f values h₁, link.Finds engine name arguments h f values h₁ ∧
        link.Speechless depth f values h₁ h') := by
  refine ⟨fun f values => answers_invoke_iff, fun engine name arguments hrun => ⟨?_, ?_⟩⟩
  · rintro hanswer ⟨f, values, h₁, hfinds, hspeechless⟩
    rw [call_of_finds hfinds] at hrun
    exact (answers_invoke_iff hrun).mp hanswer hspeechless
  · intro hspeechless
    rcases link.call_cases depth engine name arguments h with
      ⟨f, values, h₁, hfinds⟩ | ⟨kinds, h₁, hnone⟩
    · rw [call_of_finds hfinds] at hrun
      exact (answers_invoke_iff hrun).mpr fun hf => hspeechless ⟨f, values, h₁, hfinds, hf⟩
    · obtain ⟨rfl, rfl⟩ := Prod.mk.inj (Option.some.inj (hnone.symm.trans hrun))
      rfl

/-- A function that raises what it is called with. -/
def report : Native :=
  ⟨"report", [⟨"measured", .dynamic, .dynamic⟩], false, none,
    [.fail (.kind .value) (.argument 0)], some 0⟩

/-- An engine with this function. -/
def reporting : Linkage where
  find _ name _ := if name = "report" then some report else none
  kindName _ k := k.name
  places := .ok 10

/-- The greatest number of single precision. -/
def greatestSingle : Single := .finite false ⟨Format.single.finiteCount - 1, by decide⟩

theorem answers_iff_report :
    ∃ outcome h', reporting.call 1 0 "report" [.scalar (.single (.infinite true))] .empty =
        some (outcome, h') ∧
      (Answers h' outcome ↔ ¬ ∃ f values h₁,
        reporting.Finds 0 "report" [.scalar (.single (.infinite true))] .empty f values h₁ ∧
          reporting.Speechless 1 f values h₁ h') := by
  have hrun : reporting.call 1 0 "report" [.scalar (.single (.infinite true))] .empty =
      some (.error (.escaped "report" (.raised .value (.ref 1)) "ValueError: -inf"), _) := rfl
  exact ⟨_, _, hrun, (reporting.answers_iff 1 _ _ _).2 0 "report" _ hrun⟩

/-- Rounded to four digits the greatest number is out of range, so it has no text. -/
theorem display_greatestSingle :
    (Scalar.single greatestSingle).display (.ok 10) = .error .singleTooLarge := by
  have hnone : greatestSingle.shownSingle? = none := by decide +kernel
  simp only [Scalar.display, Scalar.displayFloat, Scalar.displayedNumber,
    Floating.shownSingle, hnone]
  rfl

/-- A function that raises a container with the greatest number of single precision fails with what
making the text of this number fails with. -/
theorem not_answers_greatestSingle :
    ¬ ∀ (link : Linkage) depth engine name arguments h outcome h',
      link.call depth engine name arguments h = some (outcome, h') → Answers h' outcome := by
  intro hanswers
  let cell : Cell := .dynamic (.scalar (.single greatestSingle))
  have hfinds : reporting.Finds 0 "report" [.scalar (.single greatestSingle)] .empty report
      [.ref 0] ⟨#[cell], 0⟩ := ⟨rfl, rfl⟩
  have hfails : reporting.Fails 1 report [.ref 0] ⟨#[cell], 0⟩ (.raised .value (.ref 1))
      ⟨#[cell, cell], 0⟩ := ⟨0, [.ref 1], ⟨#[cell, cell], 0⟩, rfl, ⟨rfl, rfl⟩, rfl⟩
  have hwordless : (Fault.raised .value (.ref 1)).Wordless ⟨#[cell, cell], 0⟩ reporting.places := by
    rintro ⟨-, hdisplay⟩
    have hnone := congrArg Except.isOk display_greatestSingle
    exact absurd (hnone.symm.trans hdisplay) Bool.false_ne_true
  have hrun := (call_of_finds hfinds).trans (invoke_of_fails hfails)
  have hanswer := hanswers reporting 1 0 "report" _ .empty _ _ hrun
  exact Native.isScriptError_escape_iff.mp hanswer ⟨rfl, hwordless⟩

end Linkage
end ScriptHost
