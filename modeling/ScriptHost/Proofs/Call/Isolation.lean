import ScriptHost.Function.Evaluation
import ScriptHost.Proofs.Call.Footprint
import ScriptHost.Proofs.Function.Receiver

/-!
# What a call can do to its caller

A function of the pure style borrows nothing, so a call of it leaves the caller's cells alone
and gives back new cells only.  A function of the method style borrows its first argument, so
it works on what this argument reaches and on new cells.  Both hold for every engine that
answers the calls of the body, for calls nested as deep as it may be, and whether the call
ends with a result or with a fault.

* `Native.lent_of_pure`, `Native.lent_of_method`: what functions of the two styles borrow.
* `Linkage.isolated_of_pure`: nothing changes and nothing is shared.
* `ReceiverConfined`, `Linkage.confined_of_method`: what changes, what can be reached, which
  values stay apart, and which containers can get another payload.

Two arguments that share nothing with each other can come to share cells through the first
argument, if both share something with it; `not_apart_through_receiver` is such a call.
-/

namespace ScriptHost

open Heap

variable {request : ShapeRequest} {f : Native} {arguments rest : List Value} {receiver : Value}
  {h h' : Heap} {link : Linkage} {depth : Nat} {outcome : Except Fault Value}

namespace Native

theorem lent_of_pure (hmade : Native.ofHost request = .ok f) (hstyle : f.style = .pure)
    (arguments : List Value) : f.lent arguments = [] := by
  have hnone := not_isReceiver_of_pure hmade hstyle
  have hfilter : (f.params.zip arguments).filter (fun pv => pv.1.binding.isReceiver) = [] := by
    refine List.filter_eq_nil_iff.mpr fun pv hpv => ?_
    rw [hnone pv.1 (List.of_mem_zip hpv).1]
    exact Bool.false_ne_true
  rw [lent, hfilter]
  rfl

theorem lent_of_method {p : Param} {ps : List Param} (hparams : f.params = p :: ps)
    (hreceiver : p.binding.isReceiver = true) (hothers : ∀ q ∈ ps, q.binding.isReceiver = false)
    (receiver : Value) (rest : List Value) : f.lent (receiver :: rest) = receiver.addrs := by
  have hfilter : (ps.zip rest).filter (fun pv => pv.1.binding.isReceiver) = [] := by
    refine List.filter_eq_nil_iff.mpr fun pv hpv => ?_
    rw [hothers pv.1 (List.of_mem_zip hpv).1]
    exact Bool.false_ne_true
  rw [lent, hparams, List.zip_cons_cons, List.filter_cons, if_pos hreceiver, hfilter]
  simp [Value.addrsAll]

end Native

/-! ## Calls by value -/

/-- **A call by value is isolated**: every cell stays as it was, and from the result or the
fault only new cells are reached. -/
theorem Linkage.isolated_of_pure (hmade : Native.ofHost request = .ok f)
    (hstyle : f.style = .pure) (hclosed : h.Closed) (hheld : ∀ v ∈ arguments, h.Holds v)
    (hrun : link.invoke depth f arguments h = some (outcome, h')) :
    (∀ a, a < h.size → h'.get? a = h.get? a) ∧
      ∀ a, Reaches h' (endAddrs Value.addrs outcome) a → h.size ≤ a := by
  obtain ⟨inside, hfoot⟩ := exists_footprint hclosed hheld hrun
  rw [Native.lent_of_pure hmade hstyle] at hfoot
  have hnone : ∀ a, ¬ Reaches h [] a := fun a ha =>
    ha.closed_under (P := fun _ => False) (fun _ hr => List.not_mem_nil hr) fun _ => False.elim
  refine ⟨fun a ha => hfoot.get?_eq ha (hnone a), fun a ha => ?_⟩
  exact (hfoot.lent_or_le ha).resolve_left (hnone a)

/-- A body that calls a method on its argument and gives the argument back. -/
def extendBody : Body :=
  [.run (.call "push" [.argument 0, .constant (.scalar (.int 2))]), .give (.argument 0)]

/-- A host function that takes a list by value. -/
def extendRequest : ShapeRequest where
  name := "extended"
  callable := .function ⟨[⟨"items", some (.kind .array), .positional, false⟩], none, extendBody,
    .usual⟩
  types := none
  style := none
  fallible := false
  receiver := none
  limit := .ok 20
  home := some 0

/-- The native function of the request. -/
def extended : Native :=
  ⟨"extended", [⟨"items", .array, .value⟩], false, none, extendBody, some 0⟩

/-- Engines that know one method, which puts a number at the end of its receiver. -/
def pushLinkage : Linkage where
  find _ _ _ := some ⟨"push", [⟨"items", .array, .reference⟩, ⟨"item", .int, .value⟩], false,
    none, [.run (.apply .push [.argument 0, .argument 1])], some 0⟩
  kindName _ k := k.name
  places := .ok 6

/-- A list with one item, in a container. -/
def oneItem : Heap := ⟨#[.array [.scalar (.int 1)], .dynamic (.ref 0)], 0⟩

/-- A list that is passed by value stays, though the body extends what it gets. -/
theorem isolated_extended :
    Native.ofHost extendRequest = .ok extended ∧
      ∃ outcome h', pushLinkage.invoke 2 extended [.ref 1] oneItem = some (outcome, h') ∧
        (∀ a, a < oneItem.size → h'.get? a = oneItem.get? a) ∧
        ∀ a, Reaches h' (endAddrs Value.addrs outcome) a → oneItem.size ≤ a := by
  have hmade : Native.ofHost extendRequest = .ok extended := rfl
  have hclosed : oneItem.Closed := by decide
  have hheld : ∀ v ∈ [Value.ref 1], oneItem.Holds v := by decide
  have hrun : pushLinkage.invoke 2 extended [.ref 1] oneItem = some (_, _) := rfl
  exact ⟨hmade, _, _, hrun, Linkage.isolated_of_pure hmade rfl hclosed hheld hrun⟩

/-! ## Calls with a receiver -/

/-- What a call with a receiver leaves of the heap. -/
structure ReceiverConfined (link : Linkage) (depth : Nat) (f : Native) (receiver : Value)
    (rest : List Value) (h : Heap) (outcome : Except Fault Value) (h' : Heap) : Prop where
  /-- A cell that is not reached from the receiver stays. -/
  outside : ∀ a, a < h.size → ¬ Reaches h receiver.addrs a → h'.get? a = h.get? a
  /-- From the receiver and the result only cells of the receiver and new ones are reached. -/
  reached : ∀ a, Reaches h' (receiver.addrs ++ endAddrs Value.addrs outcome) a →
    Reaches h receiver.addrs a ∨ h.size ≤ a
  /-- An argument that shares nothing with the receiver shares nothing new. -/
  apart : ∀ v ∈ receiver :: rest, ∀ w ∈ receiver :: rest,
    ¬ h.Shares v w → ¬ h.Shares receiver w → ¬ h'.Shares v w
  /-- A reference leaves the container of the payload alone. -/
  payload : ∀ p ps d w, f.params = p :: ps → p.binding = .reference → p.kind ≠ .dynamic →
    receiver = .ref d → h.get? d = some (.dynamic w) → h'.get? d = some (.dynamic w)
  /-- A container gets another payload only if the function takes a handle, if there is one
  among what the receiver reaches, or if a call of the body takes one. -/
  replaced : ∀ a w, Reaches h receiver.addrs a → h.get? a = some (.dynamic w) →
    h'.get? a ≠ some (.dynamic w) →
      (∃ p ∈ f.params, p.binding = .exclusive) ∨
      (∃ b slot, Reaches h receiver.addrs b ∧ h.get? b = some (.handle slot)) ∨
      link.withoutExclusive.invoke depth f (receiver :: rest) h ≠ some (outcome, h')

/-- **A call with a receiver is confined to what the receiver reaches.** -/
theorem Linkage.confined_of_method (hmade : Native.ofHost request = .ok f)
    (hstyle : f.style = .method) (hclosed : h.Closed)
    (hheld : ∀ v ∈ receiver :: rest, h.Holds v)
    (hacyclic : ∀ v ∈ receiver :: rest, h.Acyclic v)
    (hrun : link.invoke depth f (receiver :: rest) h = some (outcome, h')) :
    ReceiverConfined link depth f receiver rest h outcome h' := by
  obtain ⟨p, ps, hparams, hreceiver, hothers⟩ := Native.exists_receiver_of_method hmade hstyle
  have hlent := Native.lent_of_method hparams hreceiver hothers receiver rest
  obtain ⟨inside, hfoot⟩ := exists_footprint hclosed hheld hrun
  rw [hlent] at hfoot
  refine ⟨fun a => hfoot.get?_eq, fun a => hfoot.lent_or_le, ?_, ?_, ?_⟩
  · intro v hv w hw hvw hreceiver
    exact hfoot.not_shares hclosed (hheld v hv) (hheld w hw)
      (fun a ha hwa => hreceiver ⟨a, ha, hwa⟩) hvw
  · rintro q qs d w hq hreference hkind rfl hw
    obtain ⟨rfl, rfl⟩ := List.cons.inj (hparams.symm.trans hq)
    have hroot : Reaches h (Value.ref d).addrs d := .root (by simp)
    have hback := hacyclic _ List.mem_cons_self d hroot
    rw [childrenOf_eq_of_get? hw] at hback
    exact payload_of_reference hclosed hheld hparams hreference hkind hothers hw hback hrun
  · intro a w _ hw hchanged
    by_contra hnone
    obtain ⟨hparam, hhandle, hcalls⟩ := not_or.mp hnone |>.imp id not_or.mp
    refine hchanged (payload_of_withoutExclusive hclosed hheld ?_ ?_ (not_not.mp hcalls) hw)
    · exact fun p hp hexclusive => hparam ⟨p, hp, hexclusive⟩
    · rw [hlent]
      exact fun b slot hb hget => hhandle ⟨b, slot, hb, hget⟩

/-- A body that puts the second item of its receiver into the first one. -/
def linkBody : Body :=
  [.run (.apply .push [.apply .item [.argument 0, .constant (.scalar (.int 0))],
    .apply .item [.argument 0, .constant (.scalar (.int 1))]])]

/-- A host function with a receiver and two more parameters. -/
def linkRequest : ShapeRequest where
  name := "link"
  callable := .function ⟨[⟨"whole", none, .positional, false⟩,
    ⟨"left", some (.kind .dynamic), .positional, false⟩,
    ⟨"right", some (.kind .dynamic), .positional, false⟩], none, linkBody, .usual⟩
  types := none
  style := some .method
  fallible := false
  receiver := some .array
  limit := .ok 20
  home := some 0

/-- The native function of the request. -/
def linkNative : Native :=
  ⟨"link", [⟨"whole", .array, .reference⟩, ⟨"left", .dynamic, .dynamic⟩,
    ⟨"right", .dynamic, .dynamic⟩], false, none, linkBody, some 0⟩

/-- A list of two lists in a container, and a container for each of the two. -/
def twoParts : Heap :=
  ⟨#[.array [], .array [], .array [.ref 0, .ref 1], .dynamic (.ref 2), .dynamic (.ref 0),
    .dynamic (.ref 1)], 0⟩

theorem confined_linkNative :
    Native.ofHost linkRequest = .ok linkNative ∧
      ∃ outcome h', pushLinkage.invoke 1 linkNative [.ref 3, .ref 4, .ref 5] twoParts =
          some (outcome, h') ∧
        ReceiverConfined pushLinkage 1 linkNative (.ref 3) [.ref 4, .ref 5] twoParts outcome h' := by
  have hmade : Native.ofHost linkRequest = .ok linkNative := rfl
  have hclosed : twoParts.Closed := by decide
  have hheld : ∀ v ∈ [Value.ref 3, .ref 4, .ref 5], twoParts.Holds v := by decide
  have hacyclic : ∀ v ∈ [Value.ref 3, .ref 4, .ref 5], twoParts.Acyclic v := by
    simp only [acyclic_iff hclosed]
    decide
  have hrun : pushLinkage.invoke 1 linkNative [.ref 3, .ref 4, .ref 5] twoParts = some (_, _) :=
    rfl
  exact ⟨hmade, _, _, hrun, Linkage.confined_of_method hmade rfl hclosed hheld hacyclic hrun⟩

/-- Two arguments that share nothing with each other can share cells after the call, if both
share something with the receiver. -/
theorem not_apart_through_receiver :
    ∃ request f receiver v w h outcome h', Native.ofHost request = .ok f ∧ f.style = .method ∧
      h.Closed ∧ (∀ x ∈ [receiver, v, w], h.Holds x) ∧ (∀ x ∈ [receiver, v, w], h.Acyclic x) ∧
      pushLinkage.invoke 1 f [receiver, v, w] h = some (outcome, h') ∧
      ¬ h.Shares v w ∧ h'.Shares v w := by
  have hclosed : twoParts.Closed := by decide
  have hacyclic : ∀ v ∈ [Value.ref 3, .ref 4, .ref 5], twoParts.Acyclic v := by
    simp only [acyclic_iff hclosed]
    decide
  have hbefore : ¬ twoParts.Shares (.ref 4) (.ref 5) := by
    rw [shares_iff hclosed]
    decide
  refine ⟨linkRequest, linkNative, .ref 3, .ref 4, .ref 5, twoParts, _, _, rfl, rfl, hclosed,
    by decide, hacyclic, rfl, hbefore, ?_⟩
  rw [shares_iff (by decide)]
  decide

end ScriptHost
