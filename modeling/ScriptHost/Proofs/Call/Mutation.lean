import Mathlib.Logic.Relation
import ScriptHost.Proofs.Call.Footprint
import ScriptHost.Proofs.Heap.TextForms

/-!
# What can be done with the values that one holds

A program gets at the cells of a heap through the values it holds and in no other way: it
follows references, makes new values, changes cells it has come to, and calls functions on what
it holds.  `Holding.Step` is one such step, with any change of a cell and with any function of
any engine; a run is any number of them.

* `Holding.Step.stays`: a step stays within every territory that the values held belong to.
* `Holding.stays_of_steps`: so does a run, by induction on its steps.
* `Holding.kept_of_steps`: a run leaves every cell as it was that was not reached from what was
  held at its start.
* `Heap.Unaffected`, `unaffected_of_apart`: so the texts of a value stay that shares nothing
  with what was held.
-/

namespace ScriptHost

open Heap Relation

/-- Addresses that a program holds, and the heap they belong to. -/
structure Holding where
  held : List Addr
  heap : Heap

namespace Holding

/-- One thing that is done with what is held. -/
inductive Step : Holding → Holding → Prop
  /-- A reference is followed. -/
  | follow {held : List Addr} {h : Heap} {a b : Addr} (ha : a ∈ held) (hb : b ∈ h.childrenOf a) :
    Step ⟨held, h⟩ ⟨b :: held, h⟩
  /-- Values are made that refer to nothing that was there: data are entered, values copied. -/
  | make {held as : List Addr} {h h' : Heap} (hnew : Annexed h as h') :
    Step ⟨held, h⟩ ⟨as ++ held, h'⟩
  /-- A cell is made around what is held. -/
  | alloc {held : List Addr} {h : Heap} {c : Cell} (hc : c.addrs ⊆ held) :
    Step ⟨held, h⟩ ⟨[h.size] ++ held, (h.alloc c).2⟩
  /-- A cell is changed. -/
  | set {held : List Addr} {h : Heap} {a : Addr} {c : Cell} (ha : a ∈ held) (hc : c.addrs ⊆ held) :
    Step ⟨held, h⟩ ⟨held, h.set a c⟩
  /-- A function is invoked, and ends with a result or a fault. -/
  | invoke {held : List Addr} {h h' : Heap} {link : Linkage} {depth : Nat} {f : Native}
      {arguments : List Value} {outcome : Except Fault Value}
      (harguments : Value.addrsAll arguments ⊆ held)
      (hrun : link.invoke depth f arguments h = some (outcome, h')) :
    Step ⟨held, h⟩ ⟨endAddrs Value.addrs outcome ++ held, h'⟩
  /-- A function of an engine is called by name. -/
  | call {held : List Addr} {h h' : Heap} {link : Linkage} {depth : Nat} {engine : EngineId}
      {name : String} {arguments : List Value} {outcome : Except Fault Value}
      (harguments : Value.addrsAll arguments ⊆ held)
      (hrun : link.call depth engine name arguments h = some (outcome, h')) :
    Step ⟨held, h⟩ ⟨endAddrs Value.addrs outcome ++ held, h'⟩

variable {T : Territory} {s s' : Holding} {h h' : Heap} {held as : List Addr} {v : Value}

/-- What was held goes on to be held. -/
theorem stays_held (hknows : Knows T h held) (hstays : Stays T h as h') :
    Stays T h (as ++ held) h' :=
  ⟨hstays.within, hstays.kept,
    knows_append_iff.mpr ⟨hstays.knows, hknows.after hstays.kept.size_le⟩⟩

/-- **A step stays where what is held is**, as long as containers may be given other payloads
there. -/
theorem Step.stays (hstep : Step s s') (hT : Within T s.heap) (hknows : Knows T s.heap s.held)
    (hslots : ∀ a, T.slots a) : Stays T s.heap s'.held s'.heap := by
  have hlink (link : Linkage) : link.Licensed T := fun _ _ _ _ _ _ _ _ => hslots
  cases hstep with
  | @follow held h a b ha hb =>
    have hchild : Knows T h [b] := by
      intro x hx
      rw [List.mem_singleton.mp hx]
      exact Knows.children (hknows a ha).2 hT b hb
    exact stays_held hknows (hT.stays hchild)
  | make hnew => exact stays_held hknows (hnew.stays hT)
  | alloc hc =>
    exact stays_held hknows (hT.stays_alloc (hknows.mono hc) fun slot _ => hslots slot)
  | @set held h a c ha hc =>
    exact stays_held hknows (hT.stays_set (hknows a ha).2 (hknows.mono hc)
      (fun slot _ => hslots slot) fun _ _ => hslots a)
  | @invoke held h h' link depth f arguments outcome harguments hrun =>
    have hrespects := Linkage.respects_invoke (hlink link) depth (f := f) fun _ _ _ => hslots
    exact stays_held hknows
      (hrespects arguments h hT (hknows.mono harguments) outcome h' hrun).stays
  | @call held h h' link depth engine name arguments outcome harguments hrun =>
    have hrespects := Linkage.respects_call (hlink link) depth engine name
    exact stays_held hknows
      (hrespects arguments h hT (hknows.mono harguments) outcome h' hrun).stays

/-- **A run stays where what is held at its start is.** -/
theorem stays_of_steps (hsteps : ReflTransGen Step s s') (hT : Within T s.heap)
    (hknows : Knows T s.heap s.held) (hslots : ∀ a, T.slots a) :
    Stays T s.heap s'.held s'.heap := by
  induction hsteps with
  | refl => exact hT.stays hknows
  | tail _ hstep ih => exact ih.trans (hstep.stays ih.within ih.knows hslots)

/-- A run changes no cell that is not reached from what is held at its start. -/
theorem kept_of_steps (hsteps : ReflTransGen Step s s') (hclosed : s.heap.Closed)
    (hheld : ∀ a ∈ s.held, a < s.heap.size) :
    Kept (.from s.heap s.held fun _ => True) s.heap s'.heap := by
  have hT : Within (.from s.heap s.held fun _ => True) s.heap :=
    hclosed.within_from (fun _ _ => trivial) fun _ _ _ _ => trivial
  exact (stays_of_steps hsteps hT (knows_from hheld) fun _ => trivial).kept

end Holding

variable {h : Heap} {v : Value} {held : List Addr}

/-- Whatever is done with what is held, every text of the value stays as it is. -/
def Heap.Unaffected (h : Heap) (v : Value) (held : List Addr) : Prop :=
  ∀ s, ReflTransGen Holding.Step ⟨held, h⟩ s → ∀ places form,
    s.heap.formText places form v = h.formText places form v

/-- **A value keeps its texts if it shares nothing with what is held.** -/
theorem Heap.unaffected_of_apart (hclosed : h.Closed) (hv : h.Holds v)
    (hheld : ∀ a ∈ held, a < h.size) (hapart : ∀ a, Reaches h v.addrs a → ¬ Reaches h held a) :
    h.Unaffected v held := by
  intro s hsteps places form
  have hkept := Holding.kept_of_steps hsteps hclosed hheld
  refine formText_congr ⟨hclosed, hv, hkept.size_le, fun a ha => hkept.outside a ?_⟩ places form
  rintro (hle | hreach)
  · exact Nat.not_lt.mpr hle (ha.lt hclosed hv)
  · exact hapart a ha hreach

end ScriptHost
