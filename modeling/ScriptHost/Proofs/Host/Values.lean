import ScriptHost.Proofs.Host.Command
import ScriptHost.Proofs.Call.Invariants

/-!
# The heap of a host

Whoever drives a host has values from it, and passes these and no others: an address that was
never given out cannot be made up.  `Host.Reachable` are the states that such runs lead to.

* `Command.Admissible`: the values a command mentions are of the heap.
* `Host.Reachable`: the states after runs of admissible commands.
* `Host.holds_apply`, `Host.Reachable.holds`: an invariant of runs that the empty heap has holds of
  the heap of every such state.
* `Host.Reachable.closed`: no reference leads out of it.

Only commands on values change the heap, and each of these makes new cells or runs a call.
-/

namespace ScriptHost

open Heap

/-- The values that a command mentions are of the heap. -/
def Command.Admissible (h : Heap) : Command → Prop
  | .wrap v => h.Holds v
  | .call _ _ vs | .invoke _ vs | .emit _ _ vs => ∀ v ∈ vs, h.Holds v
  | _ => True

/-- The states that a host gets into. -/
inductive Host.Reachable : Host → Prop where
  | initial : Reachable .initial
  | step {s : Host} {c : Command} :
    Reachable s → c.Admissible s.heap → Reachable (c.apply s)

namespace Host

/-- What holds of the heap goes on to hold across all steps that leave the heap. -/
theorem along_heap (P : Heap → Prop) : Along anyBuilder fun s s' => P s.heap → P s'.heap where
  refl _ h := h
  trans h₁ h₂ h := h₂ (h₁ h)
  aside _ _ _ _ _ h := h
  packed _ _ _ h := h
  newTable _ _ h := h
  entered _ _ _ _ h := h
  frozen _ _ h := h
  newEngine _ _ _ h := h
  loaded _ _ _ h := h
  named _ _ _ _ h := h
  opened _ _ _ h := h
  collected _ _ _ _ _ _ _ _ _ h := h

section Invariant

variable {P : Heap → Prop} (hP : Heap.Invariant P) {s : Host}
include hP

omit hP in
/-- An invariant holds of what a call on values of the heap leaves. -/
theorem holds_of_upholds {call : List Value → Run Value} {vs : List Value}
    {outcome : Except Fault Value} {h : Heap} (hcall : Run.Upholds P call)
    (hvs : ∀ v ∈ vs, s.heap.Holds v) (hrun : call vs s.heap = some (outcome, h)) :
    P s.heap → P h :=
  fun hs => hcall.keeps vs s.heap hs (knows_all hvs) outcome h hrun

/-- **An admissible command keeps an invariant.** -/
theorem holds_apply {c : Command} (hc : c.Admissible s.heap) : P s.heap → P (c.apply s).heap := by
  have halong := along_heap P
  have hcall : ∀ e name vs outcome h, (∀ v ∈ vs, s.heap.Holds v) →
      s.linkage.call callDepth e name vs s.heap = some (outcome, h) → P s.heap → P h :=
    fun e name vs outcome h hvs =>
      holds_of_upholds (Linkage.upholds_call hP callDepth e name) hvs
  cases hvalues : c.onValues with
  | false =>
    exact c.apply_along halong (fun _ _ => trivial) (fun h => absurd (hvalues.symm.trans h) nofun) s
  | true =>
    cases c with
    | build d => exact fun hs => hP.build d hs
    | wrap v => exact fun hs => hP.wrap hs fun a ha => ⟨hc a ha, trivial⟩
    | clone a => exact fun hs => hP.clone hs a
    | cast a k =>
      refine Act.moves_bind_at halong (Act.along_cast halong ?_) fun _ => Act.moves_pure halong ()
      exact fun hs => hP.tryCast a k hs
    | call e name vs =>
      refine Act.moves_bind_at halong (Act.along_call halong ?_) fun _ => Act.moves_pure halong ()
      exact fun outcome h => hcall e name vs outcome h hc
    | invoke f vs =>
      refine Act.moves_bind_at halong (Act.along_invoke halong ?_) fun _ => Act.moves_pure halong ()
      exact fun outcome h => holds_of_upholds (Linkage.upholds_invoke hP callDepth f) hc
    | emit e channel vs =>
      refine Act.moves_bind_at halong (Act.along_emit halong (Act.along_call halong ?_))
        fun _ => Act.moves_pure halong ()
      exact fun outcome h => hcall e _ vs outcome h hc
    | _ => exact absurd hvalues nofun

/-- **An invariant of runs holds of the heap of every host.** -/
theorem Reachable.holds (hempty : P .empty) (hs : s.Reachable) : P s.heap := by
  induction hs with
  | initial => exact hempty
  | step _ hc ih => exact holds_apply hP hc ih

end Invariant

/-- **No reference leads out of the heap of a host.** -/
theorem Reachable.closed {s : Host} (hs : s.Reachable) : s.heap.Closed :=
  hs.holds invariant_closed closed_empty

end Host
end ScriptHost
