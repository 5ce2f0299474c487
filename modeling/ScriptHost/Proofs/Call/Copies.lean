import ScriptHost.Proofs.Call.Mutation
import ScriptHost.Proofs.Heap.Acyclicity
import ScriptHost.Proofs.Heap.Isomorphism

/-!
# Copies of containers

A container is copied as a whole, or its payload alone is copied by a cast to the kind it has.
Either copy has the graph of the original on new cells, so nothing is shared between the two,
and whatever is done through one of them afterwards does not show in any text of the other.

* `Heap.Independent`: what is done through one value, and through values that share nothing
  with another one, leaves the texts of the other as they are.
* `Heap.Duplicate`: what a copy is to its original.
* `Heap.duplicates`: copies of containers and of payloads are such.
-/

namespace ScriptHost
namespace Heap

open Relation

variable {h h' : Heap} {r : Renaming} {d : Addr} {v w made : Value}

/-- Whatever is done through `w`, and through other values that share nothing with `v`, every text
of `v` stays as it is. -/
def Independent (h : Heap) (v w : Value) : Prop :=
  ∀ others : List Value, (∀ u ∈ others, h.Holds u ∧ ¬ h.Shares v u) →
    h.Unaffected v (Value.addrsAll (w :: others))

/-- Values that share no cell are independent. -/
theorem independent_of_not_shares (hclosed : h.Closed) (hv : h.Holds v) (hw : h.Holds w)
    (hnot : ¬ h.Shares v w) : h.Independent v w := by
  intro others hothers
  have hall : ∀ u ∈ w :: others, h.Holds u ∧ ¬ h.Shares v u :=
    List.forall_mem_cons.mpr ⟨⟨hw, hnot⟩, hothers⟩
  refine unaffected_of_apart hclosed hv (fun a ha => ?_) fun a hva ha => ?_
  · obtain ⟨u, hu, ha⟩ := Value.mem_addrsAll_iff.mp ha
    exact (hall u hu).1 a ha
  · obtain ⟨u, hu, hua⟩ := reaches_addrsAll_iff.mp ha
    exact (hall u hu).2 ⟨a, hva, hua⟩

/-- `made` is a copy of the container at `d`, or of its payload `v` alone, and `w` is the copy of
the payload. -/
structure Duplicate (h : Heap) (d : Addr) (v : Value) (h' : Heap) (made w : Value) : Prop where
  /-- The heap is as it was, with cells added. -/
  old : Extends h h'
  /-- The payload is the old one with its parts renamed, and the renaming takes the cells that were
  reached to all those that are reached now, each to one of its own. -/
  mirrored : ∃ r : Renaming, w = v.rename r ∧ Mirrors r h v.addrs h' ∧
    ∀ b, Reaches h' w.addrs b ↔ ∃ a, Reaches h v.addrs a ∧ r.addr a = b
  /-- Everything that is reached from the copy is new. -/
  fresh : ∀ b, Reaches h' made.addrs b → h.size ≤ b
  kind : h'.kindOf w = h.kindOf v
  /-- The payload reads as before … -/
  read : h'.read? w = h.read? v
  /-- … and if it has no cycles, it is read in full. -/
  full : h.Acyclic v → ∃ x, h.read? v = some x
  texts : ∀ places form, h'.formText places form (.ref d) = h.formText places form (.ref d)
  /-- What is done through the copy does not show in the original. -/
  original : h'.Independent (.ref d) made
  /-- What is done through the original does not show in the copy. -/
  copy : h'.Independent made (.ref d)

theorem Flat.duplicate (hflat : h.Flat) (hd : h.get? d = some (.dynamic v))
    (hnew : Annexed h made.addrs h') (hmirrors : Mirrors r h v.addrs h') :
    Duplicate h d v h' made (v.rename r) := by
  have hold : h.Holds (.ref d) := holds_ref hd
  have hpayload : h.Holds v := by
    have hv := hflat.closed.holds_payload d
    rwa [payload, hd] at hv
  have hkept : h'.Holds (.ref d) := hnew.toExtends.holds hold
  have hmade : h'.Holds made := fun a ha => (hnew.added a ha).2
  have hnot : ¬ h'.Shares (.ref d) made := hnew.not_shares hflat.closed hold
  have hreaches : ∀ b, Reaches h' (v.rename r).addrs b ↔
      ∃ a, Reaches h v.addrs a ∧ r.addr a = b := by
    intro b
    rw [Value.addrs_rename]
    exact hmirrors.reaches_iff
  exact {
    old := hnew.toExtends
    mirrored := ⟨r, rfl, hmirrors, hreaches⟩
    fresh := fun b hb => hnew.le_of_reaches hb
    kind := hmirrors.kindOf_rename (List.Subset.refl _)
    read := hmirrors.read?_rename hnew.size_le (List.Subset.refl _)
    full := hflat.exists_read? hpayload
    texts := hnew.toExtends.formText hflat.closed hold
    original := independent_of_not_shares hnew.closed hkept hmade hnot
    copy := independent_of_not_shares hnew.closed hmade hkept (mt Shares.symm hnot) }

/-- **A copy of a container, and the cast to the kind of its payload, give the same graph on new
cells, independent of the original.** -/
theorem duplicates (hflat : h.Flat) (hd : h.get? d = some (.dynamic v)) :
    (∃ w, (h.clone d).2.get? (h.clone d).1 = some (.dynamic w) ∧
      Duplicate h d v (h.clone d).2 (.ref (h.clone d).1) w) ∧
    ∃ w, (h.tryCast d (h.kindOf v)).1 = some w ∧
      Duplicate h d v (h.tryCast d (h.kindOf v)).2 w w := by
  have hpayload : h.payload d = v := by rw [payload, hd]
  have hv : h.Holds v := hpayload ▸ hflat.closed.holds_payload d
  have hkind : h.kindOf v ≠ .dynamic := hflat.fits d _ hd
  constructor
  · have hclone := hflat.get?_clone d
    have hnew : Annexed h (Value.ref (h.clone d).1).addrs (h.clone d).2 := by
      rw [Value.addrs_ref]
      exact annexed_clone hflat.closed d
    have hmirrors := mirrors_clone hflat.closed d
    rw [hpayload] at hclone hmirrors
    exact ⟨_, hclone, hflat.duplicate hd hnew hmirrors⟩
  · rw [tryCast_of_kindOf hkind (by rw [hpayload]), hpayload]
    exact ⟨_, rfl, hflat.duplicate hd (annexed_copy hflat.closed hv)
      (mirrors_copy hflat.closed hv)⟩

/-- A list, a container and a mark that stand in several places of one payload, some of them behind
a handle, in an object and in a tuple. -/
def sharedParts : Heap where
  cells := #[.array [.scalar (.int 1)], .object "Point" [("items", .ref 0)],
    .dynamic (.string "x"), .handle 2, .map [(.string "k", .tuple [.ref 0, .ref 1])],
    .array [.ref 0, .ref 4, .ref 3, .ref 2, .undefined true 0, .undefined true 0],
    .dynamic (.ref 5)]
  marks := 1

/-- The inner list of the copy is emptied, which shows in the text of the copy and not in that of the
original. -/
theorem duplicates_sharedParts :
    sharedParts.Flat ∧ sharedParts.get? 6 = some (.dynamic (.ref 5)) ∧
      (∃ w, (sharedParts.tryCast 6 .array).1 = some w ∧
        Duplicate sharedParts 6 (.ref 5) (sharedParts.tryCast 6 .array).2 w w) ∧
      ∃ w, (sharedParts.clone 6).2.get? 13 = some (.dynamic w) ∧
        Duplicate sharedParts 6 (.ref 5) (sharedParts.clone 6).2 (.ref 13) w ∧
        ∃ s, ReflTransGen Holding.Step ⟨[13], (sharedParts.clone 6).2⟩ s ∧
          s.heap.formText (.ok 6) .debug (.ref 13) ≠
            (sharedParts.clone 6).2.formText (.ok 6) .debug (.ref 13) ∧
          s.heap.formText (.ok 6) .debug (.ref 6) =
            sharedParts.formText (.ok 6) .debug (.ref 6) := by
  have hflat : sharedParts.Flat := by decide
  have hd : sharedParts.get? 6 = some (.dynamic (.ref 5)) := rfl
  have haddr : (sharedParts.clone 6).1 = 13 := by decide
  obtain ⟨⟨w, hw, hcopy⟩, hcast⟩ := duplicates hflat hd
  rw [haddr] at hw hcopy
  have hsteps : ReflTransGen Holding.Step ⟨[13], (sharedParts.clone 6).2⟩
      ⟨[8, 7, 13], (sharedParts.clone 6).2.set 8 (.array [])⟩ := by
    have hpayload : Holding.Step ⟨[13], (sharedParts.clone 6).2⟩
        ⟨[7, 13], (sharedParts.clone 6).2⟩ := .follow (a := 13) (by decide) (by decide)
    have hlist : Holding.Step ⟨[7, 13], (sharedParts.clone 6).2⟩
        ⟨[8, 7, 13], (sharedParts.clone 6).2⟩ := .follow (a := 7) (by decide) (by decide)
    have hempty : Holding.Step ⟨[8, 7, 13], (sharedParts.clone 6).2⟩
        ⟨[8, 7, 13], (sharedParts.clone 6).2.set 8 (.array [])⟩ :=
      .set (by decide) (by decide)
    exact ((ReflTransGen.single hpayload).tail hlist).tail hempty
  have hsame := hcopy.original [] (by simp) _ (by simpa [Value.addrsAll] using hsteps)
    (.ok 6) .debug
  exact ⟨hflat, hd, hcast, w, hw, hcopy, _, hsteps, by decide +kernel,
    hsame.trans (hcopy.texts _ _)⟩

end Heap
end ScriptHost
