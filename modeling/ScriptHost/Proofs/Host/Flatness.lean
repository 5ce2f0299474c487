import ScriptHost.Proofs.Call.Flatness
import ScriptHost.Proofs.Host.Values

/-!
# A host never nests containers

Whatever a host does, no container ever holds a container: not by making, wrapping, copying or
casting values, and not by calls, whose bodies may wrap containers again, put them into arrays, maps
and objects, return them, raise them, or assign them through a handle.  So the kind of a payload is
never that of containers, and neither is the kind of an argument that a call finds its function by.

* `Command.Asks`: the calls that are made in the course of a command, however deep.
* `Host.Reachable.never_nested`: the heap of a host is flat, and so is that of every such call.
-/

namespace ScriptHost

open Heap

/-- A call by name on an engine comes to a request: it is the request, or the invocation of what it
finds comes to it. -/
def Host.Asks (s : Host) (r : Request) (e : EngineId) (name : String) (arguments : List Value) :
    Prop :=
  r = ⟨e, name, arguments, s.heap⟩ ∨
    ∃ f values h, s.linkage.Finds e name arguments s.heap f values h ∧
      s.linkage.Asks r callDepth f values h

/-- A call that is made in the course of a command. -/
def Command.Asks (s : Host) (r : Request) : Command → Prop
  | .call e name arguments => s.Asks r e name arguments
  | .emit e channel arguments => s.Asks r e (Act.channelFunction channel) arguments
  | .invoke f arguments => s.linkage.Asks r callDepth f arguments s.heap
  | _ => False

namespace Host

theorem Asks.upholds {s : Host} {r : Request} {e : EngineId} {name : String}
    {arguments : List Value} (hasks : s.Asks r e name arguments) (hflat : s.heap.Flat)
    (hheld : ∀ v ∈ arguments, s.heap.Holds v) : r.Upholds Flat := by
  rcases hasks with rfl | ⟨f, values, h, hfinds, hasks⟩
  · exact ⟨hflat, knows_all hheld⟩
  · obtain ⟨hh, hvalues⟩ :=
      Linkage.holds_of_contained invariant_flat hfinds.contained hflat (knows_all hheld)
    exact hasks.upholds invariant_flat hh hvalues

/-- Every call in the course of a command is made on a flat heap. -/
theorem upholds_of_asks {s : Host} {c : Command} {r : Request} (hflat : s.heap.Flat)
    (hc : c.Admissible s.heap) (hasks : c.Asks s r) : r.Upholds Flat := by
  cases c with
  | call e name vs => exact Asks.upholds hasks hflat hc
  | emit e channel vs => exact Asks.upholds hasks hflat hc
  | invoke f vs => exact Linkage.Asks.upholds invariant_flat hasks hflat (knows_all hc)
  | _ => exact absurd hasks id

/-- The heap of a host is flat. -/
theorem Reachable.flat {s : Host} (hs : s.Reachable) : s.heap.Flat :=
  hs.holds invariant_flat flat_empty

/-- **No container ever holds a container.**  In every state that a host gets into, and in the heap
of every call by name in the course of what it does next, the payload of every container is no
container and every handle leads to a container; and no call finds its function by the kind of a
container. -/
theorem Reachable.never_nested {s : Host} (hs : s.Reachable) :
    s.heap.Flat ∧ ∀ (c : Command) (r : Request), c.Admissible s.heap → c.Asks s r → r.heap.Flat ∧
      ∃ values h, containAll r.arguments r.heap = some (.ok values, h) ∧ h.Flat ∧
        Kind.dynamic ∉ Linkage.kindsOf h values := by
  have hflat := hs.flat
  refine ⟨hflat, fun c r hc hasks => ?_⟩
  obtain ⟨hr, hknows⟩ := upholds_of_asks hflat hc hasks
  obtain ⟨values, h, hcontained⟩ := exists_containAll_eq_ok r.arguments r.heap
  obtain ⟨hh, -⟩ := Linkage.holds_of_contained invariant_flat hcontained hr hknows
  exact ⟨hr, values, h, hcontained, hh, Linkage.dynamic_notMem_kindsOf hh values⟩

/-- A function that assigns a container in a container through its handle and calls another one. -/
def keep : Native where
  name := "keep"
  params := [⟨"slot", .int, .exclusive⟩]
  fallible := false
  result := none
  body := [.run (.apply .assign [.argument 0,
      .apply .contain [.apply .contain [.constant (.scalar (.int 2))]]]),
    .give (.call "show" [.apply .contain [.constant (.scalar (.int 3))]])]
  home := some 0

/-- A host with this function and a container that was made of a container. -/
def keeping : Host :=
  Host.initial.after [.newEngine (some .all) false, .register 0 keep,
    .build (.dynamic (.dynamic (.scalar (.int 1))))]

/-- The call that the function makes. -/
def showing : Request where
  engine := 0
  name := "show"
  arguments := [.ref 5]
  heap := ⟨#[.dynamic (.scalar (.int 1)), .dynamic (.scalar (.int 2)), .handle 1,
    .dynamic (.scalar (.int 2)), .dynamic (.scalar (.int 2)), .dynamic (.scalar (.int 3))], 0⟩

theorem never_nested_keep :
    keeping.Reachable ∧ (Command.call 0 "keep" [.ref 1]).Admissible keeping.heap ∧
      (Command.call 0 "keep" [.ref 1]).Asks keeping showing ∧ showing.heap.Flat ∧
        ∃ values h, containAll showing.arguments showing.heap = some (.ok values, h) ∧ h.Flat ∧
          Kind.dynamic ∉ Linkage.kindsOf h values := by
  have hreachable : keeping.Reachable := .step (.step (.step .initial trivial) trivial) trivial
  have hheld : (Command.call 0 "keep" [.ref 1]).Admissible keeping.heap := by
    intro v hv a ha
    rw [List.mem_singleton.mp hv, Value.addrs_ref, List.mem_singleton] at ha
    rw [ha]
    exact Nat.lt_succ_self 1
  have hasks : (Command.call 0 "keep" [.ref 1]).Asks keeping showing := by
    refine .inr ⟨keep, [.ref 1], keeping.heap, ⟨rfl, rfl⟩, ?_⟩
    exact .itself ⟨rfl, rfl⟩ rfl (.later (.run rfl) (.first (.here rfl)))
  exact ⟨hreachable, hheld, hasks, hreachable.never_nested.2 _ _ hheld hasks⟩

end Host
end ScriptHost
