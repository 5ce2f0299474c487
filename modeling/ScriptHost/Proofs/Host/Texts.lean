import ScriptHost.Proofs.Call.Rejection
import ScriptHost.Proofs.Host.Flatness
import ScriptHost.Proofs.Host.Packages
import ScriptHost.Proofs.Host.Values
import ScriptHost.Proofs.Package.Texts

/-!
# The texts that an engine gives

An engine that has just been made with the string package answers `print`, `to_string` and `debug`
for one value with the text that the formatter gives for it, in a new container.  It does so exactly
for the kinds that have a text under its features; for all others there is no function.  Where the
formatter fails, the call fails with that failure in the layer of the function.  Whatever the
outcome, the heap has only grown, so the value is as it was.

* `Strings.textOf`: the text that each of the functions is to give.
* `Linkage.invoke_of_writes`: the invocation of a function that writes texts.
* `Host.Fresh`: an engine that has been made with the string package, and nothing done to it since.
* `Host.Fresh.answers_text`: what the three functions answer there.
-/

namespace ScriptHost

open Heap

/-! ## Texts -/

namespace Strings

/-- The text of a value by one of the functions: its display form, or its debug form with a mark
before that of a map. -/
def textOf (h : Heap) (places : Precision) (name : String) (v : Value) :
    Except ConvertError String :=
  if name = debugName then
    if h.kindOf (h.unwrap v) = .map then (h.formText places .debug v).map ("#" ++ ·)
    else h.formText places .debug v
  else h.formText places .display v

variable {h h' : Heap} {places : Precision} {v : Value} {name : String}

theorem formText_markedDebug :
    h.formText places .markedDebug v = (h.formText places .debug v).map ("#" ++ ·) := by
  have hmark (t : List Char) : String.ofList ('#' :: t) = "#" ++ String.ofList t :=
    @String.ofList_append ['#'] t
  rw [formText, formText, debugMap]
  cases h.debug v with
  | error c => rfl
  | ok t => exact congrArg Except.ok (hmark t)

/-- The text is that of the payload, in the form for its kind. -/
theorem textOf_eq (hflat : h.Flat) (places : Precision) (name : String) (v : Value) :
    textOf h places name v =
      h.formText places (formFor name (h.kindOf (h.unwrap v))) (h.unwrap v) := by
  rw [textOf, formFor]
  split_ifs
  · rw [← formText_markedDebug]
    exact (hflat.formText_unwrap (by decide) v).symm
  · exact (hflat.formText_unwrap (by decide) v).symm
  · exact (hflat.formText_unwrap (by decide) v).symm

end Strings

/-! ## Invocations -/

/-- How an invocation for a text ends: with the text in a new container, or with the failure to make
it in the layer of the function. -/
def Native.Gives (f : Native) (h h' : Heap) (text : Except ConvertError String) :
    Except Fault Value → Prop
  | .ok r => ∃ t a, text = .ok t ∧ r = .ref a ∧ h.size ≤ a ∧ h'.get? a = some (.dynamic (.string t))
  | .error e => ∃ c, text = .error c ∧ e = f.layer (.ofConvert c) c.message

namespace Linkage

variable {link : Linkage} {depth : Nat} {f : Native} {h : Heap} {a : Addr} {v w : Value} {k : Kind}
  {form : TextForm}

/-- A value of a kind that is passed by value only if it is a scalar reaches the body as it is. -/
theorem take_of_writes {p : String} {b : Binding} (hclosed : h.Closed)
    (hw : h.get? a = some (.dynamic w)) (hk : h.kindOf w = k) (hdynamic : k ≠ .dynamic)
    (hbinding : b = .reference ∨ b = .value ∧ (k = .unit ∨ k = .string)) :
    ∃ h', Extends h h' ∧ h'.Closed ∧ (Param.mk p k b).take a h = (w, h') := by
  have hpayload : h.payload a = w := by rw [payload, hw]
  rcases hbinding with rfl | ⟨rfl, hscalar⟩
  · refine ⟨h, .refl h, hclosed, ?_⟩
    simp only [Param.take]
    rw [if_neg hdynamic, hpayload]
  · obtain ⟨s, rfl⟩ := Strings.exists_scalar (hpayload ▸ hclosed.holds_payload a) (hk ▸ hscalar)
    have hcopied : h.tryCast a k = (some (h.copy (.scalar s)).1, (h.copy (.scalar s)).2) := by
      rw [tryCast_of_kindOf hdynamic (hpayload ▸ hk), hpayload]
    refine ⟨(h.copy (.scalar s)).2, extends_copy h _, ?_, ?_⟩
    · exact (annexed_copy hclosed (hpayload ▸ hclosed.holds_payload a)).closed
    · simp only [Param.take]
      rw [hcopied]
      simp [copy, Value.rename]

/-- **A function that writes texts gives that of the payload of the container it is given.** -/
theorem invoke_of_writes (link : Linkage) (depth : Nat) (hf : f.Writes k form) (hclosed : h.Closed)
    (hw : h.get? a = some (.dynamic w)) (hk : h.kindOf w = k) (hdynamic : k ≠ .dynamic) :
    ∃ h' outcome, Extends h h' ∧ link.invoke (depth + 1) f [.ref a] h = some (outcome, h') ∧
      f.Gives h h' (h.formText link.places form w) outcome := by
  obtain ⟨p, b, hparams, hbinding⟩ := hf.param
  obtain ⟨e, hbody, hrenders⟩ := hf.body
  obtain ⟨h₁, hext, -, htake⟩ := take_of_writes (p := p) hclosed hw hk hdynamic hbinding
  have hpayload : h.payload a = w := by rw [payload, hw]
  have hheld : h.Holds w := hpayload ▸ hclosed.holds_payload a
  have hbinds : f.Binds [.ref a] h [w] h₁ := by
    refine ⟨by rw [Native.arity, hparams]; rfl, ?_⟩
    have hkind : h.isKind a k = true := isKind_iff.mpr (.inr (hpayload ▸ hk))
    rw [hparams, bindAll_cons_apply, Param.bind_eq, contain_of_dynamic hw, if_pos hkind, htake]
    rfl
  have htext : h₁.formText link.places form w = h.formText link.places form w :=
    hext.formText hclosed hheld link.places form
  have hrun := hrenders (link.frame depth f [w]) h₁ w rfl (hext.holds hheld)
    ((hext.kindOf hheld).trans hk)
  have hplaces : h₁.formText (link.frame depth f [w]).places form w =
      h.formText link.places form w := htext
  rw [hplaces] at hrun
  rw [invoke_of_binds hbinds, serve_apply, hbody, Body.run, hrun]
  cases h.formText link.places form w with
  | ok t =>
    -- the text is no container, so it is put into a new one
    refine ⟨(h₁.wrap (.string t)).2, _, hext.trans (extends_alloc h₁ _), rfl, ?_⟩
    exact ⟨t, h₁.size, rfl, rfl, hext.size_le, get?_alloc_self h₁ _⟩
  | error c =>
    have hwraps : f.Wraps (.ofConvert c) := by
      rw [Native.Wraps, Fault.not_isScriptError_ofConvert, Bool.false_and]
    refine ⟨h₁, _, hext, rfl, c, rfl, ?_⟩
    exact Native.escape_of_wraps hwraps (Fault.message_ofConvert c)

variable {engine : EngineId} {name : String}

theorem containAll_singleton (h : Heap) (v : Value) :
    containAll [v] h = some (.ok [.ref (h.contain v).1], (h.contain v).2) := rfl

/-- The kind that a call for one value finds its function by. -/
theorem kindsOf_contain (hclosed : h.Closed) (hv : h.Holds v) :
    kindsOf (h.contain v).2 [.ref (h.contain v).1] = [h.kindOf (h.unwrap v)] :=
  (kindsOf_of_containAll hclosed (List.forall_mem_singleton.mpr hv) (containAll_singleton h v)).2

/-- A call for one value that finds a function which writes texts gives the text of the value. -/
theorem call_of_writes (hclosed : h.Closed) (hv : h.Holds v) (hk : h.kindOf (h.unwrap v) = k)
    (hfound : link.find engine name [k] = some f) (hf : f.Writes k form) (hdynamic : k ≠ .dynamic) :
    ∃ h' outcome, Extends h h' ∧ link.call (depth + 1) engine name [v] h = some (outcome, h') ∧
      f.Gives h h' (h.formText link.places form (h.unwrap v)) outcome := by
  have hbound := (bound_contain hclosed hv).1
  have hext := hbound.toExtends
  have hheld : h.Holds (h.unwrap v) := hclosed.holds_unwrap hv
  have hfinds : link.Finds engine name [v] h f [.ref (h.contain v).1] (h.contain v).2 := by
    refine ⟨containAll_singleton h v, ?_⟩
    rw [kindsOf_contain hclosed hv, hk]
    exact hfound
  have hkind : (h.contain v).2.kindOf (h.unwrap v) = k := (hext.kindOf hheld).trans hk
  obtain ⟨h', outcome, hext', hrun, hgives⟩ :=
    link.invoke_of_writes depth hf hbound.closed (h.get?_contain v) hkind hdynamic
  rw [hext.formText hclosed hheld] at hgives
  refine ⟨h', outcome, hext.trans hext', (call_of_finds hfinds).trans hrun, ?_⟩
  cases outcome with
  | ok r =>
    obtain ⟨t, b, htext, hr, hb, hcell⟩ := hgives
    exact ⟨t, b, htext, hr, Nat.le_trans hext.size_le hb, hcell⟩
  | error e => exact hgives

/-- A call for one value that finds no function says so. -/
theorem call_of_notFound (hclosed : h.Closed) (hv : h.Holds v)
    (hnone : link.find engine name [h.kindOf (h.unwrap v)] = none) :
    ∃ h', Extends h h' ∧ link.call depth engine name [v] h =
      some (.error (.notFound name [link.kindName engine (h.kindOf (h.unwrap v))]), h') := by
  obtain ⟨h', hext, hcall⟩ :=
    exists_callWith_of_notFound hclosed (List.forall_mem_singleton.mpr hv) hnone
  exact ⟨h', hext, hcall _⟩

end Linkage

/-! ## A fresh engine -/

/-- The command describes a type, works with values or changes the configuration, so it leaves every
table and every engine as it is. -/
def Command.Aside (c : Command) : Prop :=
  c.describes = true ∨ c.onValues = true ∨ ∃ config, c = .configure config

namespace Host

/-- The engine has been made with the string package under the features, and nothing has been
registered or loaded since; there may be new values, and the configuration may have changed. -/
inductive Fresh (fs : Features) (e : EngineId) : Host → Prop where
  | made {s s' : Host} (hs : s.Reachable) (hmade : Act.newEngine (some fs) true s = (.ok e, s')) :
      Fresh fs e s'
  | later {s : Host} {c : Command} (hs : Fresh fs e s) (hc : c.Admissible s.heap)
      (haside : c.Aside) : Fresh fs e (c.apply s)

variable {fs : Features} {e : EngineId} {s s' : Host}

theorem Fresh.reachable (hs : Fresh fs e s) : s.Reachable := by
  induction hs with
  | @made s s' hs hmade =>
    have happly : (Command.newEngine (some fs) true).apply s = s' := by
      rw [Command.apply, Command.perform, Act.state_discard, hmade]
    exact happly ▸ .step hs trivial
  | later _ hc _ ih => exact .step ih hc

/-- The engine has an empty table and one with the functions of the string package. -/
structure Equipped (s : Host) (fs : Features) (e : EngineId) (natives : List Native) : Prop where
  made : ∃ limit, Entry.MakeAll limit none (Strings.package.entriesFor fs) natives
  tables : ∃ own t, s.engine e = ⟨fs, own, [t], [], false⟩ ∧ (s.table own).functions = [] ∧
    (s.table t).functions = Table.entered natives

theorem equipped_of_newEngine (hmade : Act.newEngine (some fs) true s = (.ok e, s')) :
    ∃ natives, s'.Equipped fs e natives := by
  obtain ⟨gs, natives, log, hgs, hall, rfl, rfl⟩ := Act.eq_of_newEngine hmade
  obtain rfl : fs = gs := Option.some.inj hgs
  refine ⟨natives, ⟨_, hall⟩, s.tables.size, s.tables.size + 1, ?_, ?_, ?_⟩
  · rw [engine, Array.getElem?_push_size, Option.getD_some]
  · rw [table, Array.getElem?_push_lt (by simp), Option.getD_some, Array.getElem_push_eq]
    rfl
  · have hsize : s.tables.size + 1 = (s.tables.push (.empty (some Act.ownTableName))).size := by
      rw [Array.size_push]
    rw [table, hsize, Array.getElem?_push_size, Option.getD_some]

theorem Equipped.of_sameTables {natives : List Native} (hs : s.Equipped fs e natives)
    (hsame : s.SameTables s') : s'.Equipped fs e natives := by
  obtain ⟨own, t, hengine, hown, ht⟩ := hs.tables
  refine ⟨hs.made, own, t, ?_, ?_, ?_⟩
  · rw [engine, hsame.engines]
    exact hengine
  · rw [table, hsame.tables]
    exact hown
  · rw [table, hsame.tables]
    exact ht

theorem Fresh.equipped (hs : Fresh fs e s) : ∃ natives, s.Equipped fs e natives := by
  induction hs with
  | made _ hmade => exact equipped_of_newEngine hmade
  | @later s c _ _ haside ih =>
    obtain ⟨natives, hequipped⟩ := ih
    refine ⟨natives, hequipped.of_sameTables ?_⟩
    rcases haside with hdescribes | hvalues | ⟨config, rfl⟩
    · exact sameTables_apply (.inl hdescribes) s
    · exact sameTables_apply (.inr hvalues) s
    · exact ⟨rfl, rfl⟩

/-- An engine that is equipped looks into the table of the package. -/
theorem Equipped.resolve {natives : List Native} (hs : s.Equipped fs e natives) :
    ∃ t : Table, t.functions = Table.entered natives ∧
      ∀ name kinds, s.resolve e name kinds = t.find? name kinds := by
  obtain ⟨own, t, hengine, hown, ht⟩ := hs.tables
  refine ⟨s.table t, ht, fun name kinds => ?_⟩
  have hempty : (s.table own).functions = Table.entered [] := hown
  have hnone : (s.table own).find? name kinds = none :=
    (Table.find?_eq_none_iff hempty name kinds).mpr nofun
  rw [Host.resolve, tablesOf, hengine]
  simp [Engine.searched, Table.findIn?, hnone]

theorem Equipped.kindName {natives : List Native} (hs : s.Equipped fs e natives) (k : Kind) :
    s.linkage.kindName e k = k.name := by
  obtain ⟨own, t, hengine, -⟩ := hs.tables
  show (s.engine e).kindName k = k.name
  rw [hengine]
  rfl

/-- **The string package agrees with the formatter.**  On a fresh engine, `print`, `to_string` and
`debug` answer for every value of a kind that has a text under the features with that text in a new
container, or fail as the formatter fails, in one layer of the function; for values of other kinds
there is no function.  Either way the heap has only grown, so every value is as it was, and nothing
else has changed. -/
theorem Fresh.answers_text (hs : Fresh fs e s) {v : Value} (hv : s.heap.Holds v) {name : String}
    (hname : name ∈ Strings.textNames) :
    let k := s.heap.kindOf (s.heap.unwrap v)
    ∃ answer h, Act.call e name [v] s = (answer, { s with heap := h }) ∧ Extends s.heap h ∧
      (Strings.hasText fs k = false → answer = .error (.fault (.notFound name [k.name]))) ∧
      (Strings.hasText fs k = true →
        match Strings.textOf s.heap s.config.precision name v with
        | .ok t => ∃ a, answer = .ok (.ref a) ∧ s.heap.size ≤ a ∧
            h.get? a = some (.dynamic (.string t))
        | .error c => answer = .error (.fault (.escaped name (.ofConvert c)
            ((Fault.ofConvert c).className ++ ": " ++ c.message)))) := by
  intro k
  have hclosed := hs.reachable.closed
  obtain ⟨natives, hequipped⟩ := hs.equipped
  obtain ⟨limit, hmade⟩ := hequipped.made
  obtain ⟨t, ht, hresolve⟩ := hequipped.resolve
  obtain ⟨hsome, hnone⟩ := Strings.find?_of_made (k := k) hmade ht hname
  have htext : Strings.textOf s.heap s.config.precision name v =
      s.heap.formText s.linkage.places (Strings.formFor name k) (s.heap.unwrap v) :=
    Strings.textOf_eq hs.reachable.flat s.config.precision name v
  have hcall : Act.call e name [v] s = Act.run (s.linkage.call callDepth e name [v]) s := rfl
  cases hk : Strings.hasText fs k with
  | false =>
    have hfound : s.linkage.find e name [k] = none := (hresolve name [k]).trans (hnone hk)
    obtain ⟨h, hext, hrun⟩ := Linkage.call_of_notFound hclosed hv hfound
    rw [hequipped.kindName] at hrun
    refine ⟨_, h, ?_, hext, fun _ => rfl, fun htrue => absurd htrue Bool.false_ne_true⟩
    rw [hcall, Act.run, hrun]
  | true =>
    obtain ⟨f, hfind, rfl, hwrites⟩ := hsome hk
    have hfound : s.linkage.find e f.name [k] = some f := (hresolve f.name [k]).trans hfind
    obtain ⟨h, outcome, hext, hrun, hgives⟩ := Linkage.call_of_writes hclosed hv rfl hfound hwrites
      (Strings.ne_dynamic_of_hasText hk)
    rw [← htext] at hgives
    cases outcome with
    | ok r =>
      obtain ⟨text, a, hgiven, rfl, ha, hcell⟩ := hgives
      refine ⟨.ok (.ref a), h, ?_, hext,
        fun hfalse => absurd hfalse.symm Bool.false_ne_true, fun _ => ?_⟩
      · rw [hcall, Act.run, callDepth, hrun]
      · rw [hgiven]
        exact ⟨a, rfl, ha, hcell⟩
    | error x =>
      obtain ⟨c, hgiven, rfl⟩ := hgives
      refine ⟨.error (.fault (f.layer (.ofConvert c) c.message)), h, ?_, hext,
        fun hfalse => absurd hfalse.symm Bool.false_ne_true, fun _ => ?_⟩
      · rw [hcall, Act.run, callDepth, hrun]
      · rw [hgiven]
        rfl

/-- There are fresh engines with all features. -/
theorem exists_fresh : ∃ s, Fresh .all 0 s ∧ s.heap = .empty ∧ s.config = .initial := by
  have hok : (Act.newEngine (some .all) true .initial).1.isOk = true := by decide +kernel
  rcases hnew : Act.newEngine (some .all) true .initial with ⟨_ | e, s⟩
  · rw [hnew] at hok
    exact absurd hok nofun
  · obtain ⟨fs, natives, log, -, -, rfl, rfl⟩ := Act.eq_of_newEngine hnew
    exact ⟨_, .made .initial hnew, rfl, rfl⟩

theorem answers_text_map :
    ∃ s, Fresh .all 0 s ∧ s.heap = ⟨#[.map [(.string "a", .scalar (.int 1))]], 0⟩ ∧
      ∃ a h, Act.call 0 Strings.debugName [.ref 0] s = (.ok (.ref a), { s with heap := h }) ∧
        Extends s.heap h ∧ h.get? a = some (.dynamic (.string "#\x7b\"a\": 1\x7d")) := by
  obtain ⟨s, hfresh, hempty, hconfig⟩ := exists_fresh
  have hmap := hfresh.later (c := .build (.map [(.scalar (.string "a"), .scalar (.int 1))])) trivial
    (.inr (.inl rfl))
  generalize hs : (Command.build _).apply s = s' at hmap
  have hheap : s'.heap = ⟨#[.map [(.string "a", .scalar (.int 1))]], 0⟩ := by
    rw [← hs]
    show (s.heap.build _).2 = _
    rw [hempty]
    rfl
  have hconfig' : s'.config = .initial := by
    rw [← hs]
    exact hconfig
  have hheld : s'.heap.Holds (.ref 0) := by
    rw [hheap]
    exact holds_ref rfl
  have hkind : Strings.hasText .all (s'.heap.kindOf (s'.heap.unwrap (.ref 0))) = true := by
    rw [hheap]
    rfl
  have htext : Strings.textOf s'.heap s'.config.precision Strings.debugName (.ref 0) =
      .ok "#\x7b\"a\": 1\x7d" := by
    rw [hheap, hconfig']
    decide +kernel
  have hname : Strings.debugName ∈ Strings.textNames := by decide
  obtain ⟨answer, h, hcall, hext, -, hanswer⟩ := hmap.answers_text hheld hname
  have hgiven := hanswer hkind
  rw [htext] at hgiven
  obtain ⟨a, rfl, -, hcell⟩ := hgiven
  exact ⟨s', hmap, hheap, a, h, hcall, hext, hcell⟩

end Host
end ScriptHost
