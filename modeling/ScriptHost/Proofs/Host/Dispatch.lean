import ScriptHost.Proofs.Call.Rejection
import ScriptHost.Proofs.Host.Values

/-!
# Dispatch is sound for binding

An engine finds a function by the kinds of the arguments of a call.  Whatever table it comes
from, the function accepts these kinds, so in every state that a host gets into its parameters
take the arguments, and no call fails over their number or their kinds.

* `Table.accepts_of_find?`, `Host.fitting`: what is found accepts the kinds of the call.
* `Host.dispatched`: every call by name in every reachable state, and every call that a body
  makes in between, where the heap is closed as well.
* `Host.rejected_calls`: what is rejected, an invocation over its arguments or a call that finds no
  function, has no effect, in the same states.
-/

namespace ScriptHost

theorem Table.accepts_of_find? {t : Table} {name : String} {kinds : List Kind} {f : Native}
    (hf : t.find? name kinds = some f) : f.Accepts kinds := by
  rw [find?_eq_fewestWildcards, Native.fewestWildcards_eq_some_iff] at hf
  exact Native.fits_iff.mp (List.mem_filter.mp hf.mem).2

namespace Host

theorem fitting (s : Host) : s.linkage.Fitting := by
  intro engine name kinds f hf
  obtain ⟨t, -, ht⟩ := List.exists_of_findSome?_eq_some hf
  exact Table.accepts_of_find? ht

/-- **Whatever a call finds takes its arguments.**  This holds of the values that the host has,
and of those that a body has while it runs. -/
theorem dispatched {s : Host} (hs : s.Reachable) (engine : EngineId) (name : String) :
    (∀ arguments, (∀ v ∈ arguments, s.heap.Holds v) →
      Dispatched s.linkage engine name arguments s.heap) ∧
    ∀ h arguments, h.Closed → (∀ v ∈ arguments, h.Holds v) →
      Dispatched s.linkage engine name arguments h := by
  have hall : ∀ h arguments, h.Closed → (∀ v ∈ arguments, h.Holds v) →
      Dispatched s.linkage engine name arguments h := fun h arguments hclosed hheld =>
    Linkage.dispatched_of_fitting (fitting s) engine name hclosed hheld
  exact ⟨fun arguments => hall s.heap arguments hs.closed, hall⟩

/-- Commands that make an engine, a function and a list. -/
def setup : List Command :=
  [.newEngine (some .all) false,
   .registerMembers 0 none [⟨.inr "size", false,
    .function ⟨[⟨"items", some (.kind .array), .positional, false⟩], none,
      [.give (.apply .length [.argument 0])], .usual⟩, []⟩],
   .build (.array [.scalar (.int 1)])]

theorem dispatched_setup :
    (Host.initial.after setup).Reachable ∧
      ((Host.initial.after setup).resolve 0 "size" [.array]).isSome ∧
      Dispatched (Host.initial.after setup).linkage 0 "size" [.ref 0]
        (Host.initial.after setup).heap := by
  have hreachable : (Host.initial.after setup).Reachable :=
    .step (.step (.step .initial trivial) trivial) trivial
  have hheld : ∀ v ∈ [Value.ref 0], (Host.initial.after setup).heap.Holds v := by
    decide
  exact ⟨hreachable, by decide, (dispatched hreachable 0 "size").1 [.ref 0] hheld⟩

/-! ## Rejected calls -/

/-- **A rejected call has no effect**, neither one of the host nor one that a body makes.  An
invocation is rejected just over the number of its arguments or the first that does not fit, and a
call by name just if it finds no function. -/
theorem rejected_calls {s : Host} (hs : s.Reachable) :
    (∀ arguments, (∀ v ∈ arguments, s.heap.Holds v) →
      (∀ f, s.linkage.Rejects f arguments s.heap) ∧
        ∀ engine name, s.linkage.Misses engine name arguments s.heap) ∧
    ∀ h arguments, h.Closed → (∀ v ∈ arguments, h.Holds v) →
      (∀ f, s.linkage.Rejects f arguments h) ∧
        ∀ engine name, s.linkage.Misses engine name arguments h := by
  have hall : ∀ h arguments, h.Closed → (∀ v ∈ arguments, h.Holds v) →
      (∀ f, s.linkage.Rejects f arguments h) ∧
        ∀ engine name, s.linkage.Misses engine name arguments h := fun h arguments hclosed hheld =>
    ⟨Linkage.rejects_of_fitting (fitting s) hclosed hheld,
      Linkage.misses_of_fitting (fitting s) hclosed hheld⟩
  exact ⟨fun arguments => hall s.heap arguments hs.closed, hall⟩

/-- A function that takes a list by value and a number. -/
def insertion : Native :=
  ⟨"insert", [⟨"items", .array, .value⟩, ⟨"at", .int, .value⟩], false, none,
    [.run (.apply .push [.argument 0, .argument 1])], none⟩

/-- A list in the place of the number is refused after it has been copied as the list, and a name
that is not registered is not found. -/
theorem rejected_calls_setup :
    (Host.initial.after setup).Reachable ∧
      (∃ h', (Host.initial.after setup).linkage.invoke 1 insertion [.ref 0, .ref 0]
          (Host.initial.after setup).heap =
            some (.error (.argumentKind "insert" 2 .int .array), h') ∧
        (Host.initial.after setup).heap.Extends h' ∧
          insertion.Refuses [.ref 0, .ref 0] (Host.initial.after setup).heap
            (.argumentKind "insert" 2 .int .array) h') ∧
      ∃ h', (Host.initial.after setup).heap.Extends h' ∧
        (Host.initial.after setup).linkage.call 1 0 "insert" [.ref 0]
          (Host.initial.after setup).heap = some (.error (.notFound "insert" ["array"]), h') := by
  have hreachable : (Host.initial.after setup).Reachable :=
    .step (.step (.step .initial trivial) trivial) trivial
  have hheld : ∀ v ∈ [Value.ref 0, .ref 0], (Host.initial.after setup).heap.Holds v := by
    decide
  have hrun : (Host.initial.after setup).linkage.invoke 1 insertion [.ref 0, .ref 0]
      (Host.initial.after setup).heap =
        some (.error (.argumentKind "insert" 2 .int .array), _) := rfl
  have hrejects := ((rejected_calls hreachable).1 [.ref 0, .ref 0] hheld).1 insertion
  have hmisses := ((rejected_calls hreachable).1 [.ref 0] fun v hv =>
    hheld v (List.mem_cons_of_mem _ hv)).2 0 "insert"
  obtain ⟨h', hext, hcall⟩ := hmisses.notFound rfl
  exact ⟨hreachable, ⟨_, hrun, hrejects.untouched 0 _ _ rfl hrun⟩, h', hext, hcall _⟩

end Host
end ScriptHost
