import ScriptHost.Proofs.Heap.Confinement
import ScriptHost.Call.Operation

/-!
# What operations reach

An operation of a body gets values and gives a value.  Whatever it does stays within every
territory that its operands belong to, and if it fails, the failure refers to no cell.

* `Fault.addrs`: the cells that a fault refers to.
* `mem_addrs_enterString`, `mem_addrs_setField`: a changed map or object refers to what it
  referred to before and to the new value.
* `knows_of_cell?`: what the cell of a known value refers to is known.
* `Operation.confined_run`: the statement for all operations.  Those that read or change a cell
  come first, one lemma each.
-/

namespace ScriptHost

open Heap

/-- The addresses that a fault refers to: those of what is raised, or of its cause. -/
def Fault.addrs : Fault → List Addr
  | .escaped _ cause _ => cause.addrs
  | .declared payload _ => payload.addrs
  | .raised _ argument => argument.addrs
  | .argumentCount .. | .argumentKind .. | .notFound .. => []

@[simp] theorem Fault.addrs_worded (kind : FailureKind) (wording : String) :
    (Fault.worded kind wording).addrs = [] := by
  simp [Fault.worded, Fault.addrs]

@[simp] theorem Fault.addrs_ofConvert (e : ConvertError) : (Fault.ofConvert e).addrs = [] :=
  Fault.addrs_worded _ _

/-! ## Items, entries and fields -/

theorem Value.mem_addrsAll_of_mem {vs : List Value} {v : Value} (hv : v ∈ vs) :
    v.addrs ⊆ Value.addrsAll vs := fun _ ha => Value.mem_addrsAll_iff.mpr ⟨v, hv, ha⟩

theorem Value.addrsAll_set (vs : List Value) (n : Nat) (v : Value) :
    Value.addrsAll (vs.set n v) ⊆ Value.addrsAll vs ++ v.addrs := by
  intro a ha
  obtain ⟨w, hw, ha⟩ := Value.mem_addrsAll_iff.mp ha
  rcases List.mem_or_eq_of_mem_set hw with hw | heq
  · exact List.mem_append_left _ (Value.mem_addrsAll_of_mem hw ha)
  · exact List.mem_append_right _ (heq ▸ ha)

/-- A map with an entry put into it. -/
theorem mem_addrs_enterString (entries : List (Value × Value)) (key : String) (v : Value) :
    (Cell.map (enterString entries key v)).addrs ⊆ (Cell.map entries).addrs ++ v.addrs := by
  intro a ha
  simp only [Cell.addrs, List.mem_append, List.mem_flatMap] at ha ⊢
  obtain ⟨⟨k, w⟩, hentry, ha⟩ := ha
  rw [enterString] at hentry
  split at hentry
  · obtain ⟨⟨k', w'⟩, hmem, heq⟩ := List.mem_map.mp hentry
    split at heq
    · obtain ⟨rfl, rfl⟩ := Prod.mk.inj heq
      exact ha.imp (fun hk => ⟨_, hmem, Or.inl hk⟩) id
    · rw [heq] at hmem
      exact Or.inl ⟨_, hmem, ha⟩
  · rcases List.mem_append.mp hentry with hmem | hmem
    · exact Or.inl ⟨_, hmem, ha⟩
    · obtain ⟨rfl, rfl⟩ := Prod.mk.inj (List.mem_singleton.mp hmem)
      exact Or.inr (by simpa using ha)

/-- An object with a field set. -/
theorem mem_addrs_setField (cls : String) (fields : List (String × Value)) (name : String)
    (v : Value) :
    (Cell.object cls (setField fields name v)).addrs ⊆
      (Cell.object cls fields).addrs ++ v.addrs := by
  intro a ha
  simp only [Cell.addrs, List.mem_append, List.mem_flatMap] at ha ⊢
  obtain ⟨⟨n, w⟩, hfield, ha⟩ := ha
  rw [setField] at hfield
  split at hfield
  · obtain ⟨⟨n', w'⟩, hmem, heq⟩ := List.mem_map.mp hfield
    split at heq
    · obtain ⟨rfl, rfl⟩ := Prod.mk.inj heq
      exact Or.inr ha
    · rw [heq] at hmem
      exact Or.inl ⟨_, hmem, ha⟩
  · rcases List.mem_append.mp hfield with hmem | hmem
    · exact Or.inl ⟨_, hmem, ha⟩
    · obtain ⟨rfl, rfl⟩ := Prod.mk.inj (List.mem_singleton.mp hmem)
      exact Or.inr ha

theorem Heap.cell?_eq_some_iff {h : Heap} {v : Value} {a : Addr} {c : Cell} :
    h.cell? v = some (a, c) ↔ v = .ref a ∧ h.get? a = some c := by
  cases v with
  | ref b =>
    rw [cell?, Option.map_eq_some_iff]
    constructor
    · rintro ⟨d, hd, heq⟩
      obtain ⟨rfl, rfl⟩ := Prod.mk.inj heq
      exact ⟨rfl, hd⟩
    · rintro ⟨⟨rfl⟩, hc⟩
      exact ⟨c, hc, rfl⟩
  | _ => simp [cell?]

/-! ## Operations -/

namespace Operation

variable {T : Territory} {h : Heap} {op : Operation} {v w : Value} {a : Addr} {c : Cell}

/-- What an operation gives belongs to the territory; what it raises refers to no cell. -/
def Confined (T : Territory) (h : Heap) : Except Fault (Value × Heap) → Prop
  | .ok (v, h') => Stays T h v.addrs h'
  | .error e => ∃ kind argument, e = .raised kind argument ∧ argument.addrs = []

theorem confined_worded (kind : FailureKind) (wording : String) :
    Confined T h (.error (Fault.worded kind wording)) :=
  ⟨kind, .string wording, rfl, Value.addrs_string wording⟩

theorem confined_unfit : Confined T h op.unfit := confined_worded .type op.name

/-- The cell of a known value is inside. -/
theorem inside_of_cell? (hv : Knows T h v.addrs) (hc : h.cell? v = some (a, c)) :
    T.inside a ∧ h.get? a = some c := by
  obtain ⟨rfl, hget⟩ := cell?_eq_some_iff.mp hc
  exact ⟨(hv a (by simp)).2, hget⟩

section Confined

variable (hT : Within T h)
include hT

/-- A value without references. -/
theorem confined_plain (hv : v.addrs = []) : Confined T h (.ok (v, h)) := by
  rw [Confined, hv]
  exact hT.stays (knows_nil T h)

theorem confined_scalar (s : Scalar) : Confined T h (.ok (.scalar s, h)) :=
  confined_plain hT (Value.addrs_scalar s)

theorem confined_known (hv : Knows T h v.addrs) : Confined T h (.ok (v, h)) := hT.stays hv

/-- What the cell of a known value refers to is known. -/
theorem knows_of_cell? (hv : Knows T h v.addrs) (hc : h.cell? v = some (a, c)) :
    Knows T h c.addrs := by
  obtain ⟨ha, hget⟩ := inside_of_cell? hv hc
  rw [← childrenOf_eq_of_get? hget]
  exact Knows.children ha hT

theorem confined_allocValue (hc : Knows T h c.addrs) (hplain : ∀ slot, c ≠ .handle slot) :
    Confined T h (.ok (h.allocValue c)) := by
  rw [allocValue, Confined, Value.addrs_ref]
  exact hT.stays_alloc hc fun slot heq => absurd heq (hplain slot)

/-- A cell that is no container and no handle gets other parts. -/
theorem confined_set {d : Cell} (hv : Knows T h v.addrs) (hc : h.cell? v = some (a, c))
    (hcontainer : ∀ u, c ≠ .dynamic u) (hplain : ∀ slot, d ≠ .handle slot)
    (hd : Knows T h d.addrs) : Confined T h (.ok (.unit, h.set a d)) := by
  obtain ⟨ha, hget⟩ := inside_of_cell? hv hc
  rw [Confined, Value.addrs_unit]
  refine hT.stays_set ha hd (fun slot heq => absurd heq (hplain slot)) fun u hu => ?_
  rw [hget] at hu
  exact absurd (Option.some.inj hu) (hcontainer u)

theorem confined_getItem (hv : Knows T h v.addrs) (key : Value) :
    Confined T h (getItem h v key) := by
  rw [getItem.eq_def]
  split
  · rename_i items i hc
    split
    · rename_i found hfound
      obtain ⟨n, -, hn⟩ := Option.bind_eq_some_iff.mp hfound
      have hitem : found.addrs ⊆ (Cell.array items).addrs :=
        Value.mem_addrsAll_of_mem (List.mem_of_getElem? hn)
      exact confined_known hT ((knows_of_cell? hT hv hc).mono hitem)
    · exact confined_worded _ _
  · rename_i entries s hc
    split
    · rename_i found hfound
      obtain ⟨⟨k, u⟩, hmem, rfl⟩ := Option.map_eq_some_iff.mp hfound
      have hentry : u.addrs ⊆ (Cell.map entries).addrs := by
        intro b hb
        exact List.mem_flatMap.mpr
          ⟨(k, u), List.mem_of_find?_eq_some hmem, List.mem_append_right _ hb⟩
      exact confined_known hT ((knows_of_cell? hT hv hc).mono hentry)
    · exact ⟨.key, .string s, rfl, Value.addrs_string s⟩
  · exact confined_unfit

theorem confined_putItem (hv : Knows T h v.addrs) (key : Value) (hw : Knows T h w.addrs) :
    Confined T h (putItem h v key w) := by
  rw [putItem.eq_def]
  split
  · rename_i items i hc
    split
    · have hitems := knows_append_iff.mpr ⟨knows_of_cell? hT hv hc, hw⟩
      exact confined_set hT hv hc nofun nofun (hitems.mono (Value.addrsAll_set items _ w))
    · exact confined_worded _ _
  · rename_i entries s hc
    have hentries := knows_append_iff.mpr ⟨knows_of_cell? hT hv hc, hw⟩
    exact confined_set hT hv hc nofun nofun (hentries.mono (mem_addrs_enterString entries s w))
  · exact confined_unfit

theorem confined_sum (hv : Knows T h v.addrs) (hw : Knows T h w.addrs) :
    Confined T h (sum h v w) := by
  rw [sum.eq_def]
  split
  · exact confined_scalar hT _
  · exact confined_plain hT (Value.addrs_string _)
  · rename_i hcv hcw _ _
    have hvs := knows_of_cell? hT hv hcv
    have hws := knows_of_cell? hT hw hcw
    refine confined_allocValue hT ?_ nofun
    rw [Cell.addrs, Value.addrsAll_append]
    exact knows_append_iff.mpr ⟨hvs, hws⟩
  · exact confined_unfit

theorem confined_onIntegers {f : Int → Int → Except Fault Int}
    (hf : ∀ m n e, f m n = .error e → ∃ kind wording, e = Fault.worded kind wording) :
    Confined T h (onIntegers op h v w f) := by
  rw [onIntegers.eq_def]
  split
  · rename_i m n _ _
    cases hk : f m n with
    | ok k => exact confined_scalar hT _
    | error e =>
      obtain ⟨kind, wording, rfl⟩ := hf m n e hk
      exact confined_worded kind wording
  · exact confined_unfit

theorem confined_compare (onInt : Int → Int → Bool) (onText : String → String → Bool) :
    Confined T h (compare op h v w onInt onText) := by
  rw [compare.eq_def]
  split
  · exact confined_scalar hT _
  · exact confined_scalar hT _
  · exact confined_unfit

theorem confined_payload (places : Precision) (hv : Knows T h v.addrs) :
    Confined T h (Operation.payload.run places [v] h) := by
  simp only [run]
  split
  · rename_i b slot hc
    -- the payload of a handle is that of the container it leads to
    have hslot := knows_of_cell? hT hv hc slot (by simp [Cell.addrs])
    have hchildren : Knows T h (h.childrenOf slot) := Knows.children hslot.2 hT
    exact confined_known hT (hchildren.mono fun _ => mem_childrenOf_of_payload)
  · rename_i b u hc
    exact confined_known hT (knows_of_cell? hT hv hc)
  · exact confined_unfit

theorem confined_field (places : Precision) (name : String) (hv : Knows T h v.addrs) :
    Confined T h ((Operation.field name).run places [v] h) := by
  simp only [run]
  split
  · rename_i b cls fields hc
    split
    · rename_i n u hfield
      have hpart : u.addrs ⊆ (Cell.object cls fields).addrs := by
        intro x hx
        exact List.mem_flatMap.mpr ⟨(n, u), List.mem_of_find?_eq_some hfield, hx⟩
      exact confined_known hT ((knows_of_cell? hT hv hc).mono hpart)
    · exact confined_unfit
  · exact confined_unfit

/-- A handle that is inside leads to a container that may be given another payload. -/
theorem confined_assign (places : Precision) (hv : Knows T h v.addrs) (hw : Knows T h w.addrs) :
    Confined T h (Operation.assign.run places [v, w] h) := by
  simp only [run]
  split
  · rename_i b slot hc
    obtain ⟨hb, hget⟩ := inside_of_cell? hv hc
    have hslot := knows_of_cell? hT hv hc slot (by simp [Cell.addrs])
    rw [Confined, Value.addrs_unit]
    exact hT.stays_replace hslot.2 (hT.handles b slot hb hget) hw
  · exact confined_unfit

theorem confined_push (places : Precision) (hv : Knows T h v.addrs) (hw : Knows T h w.addrs) :
    Confined T h (Operation.push.run places [v, w] h) := by
  simp only [run]
  split
  · rename_i b items hc
    refine confined_set hT hv hc nofun nofun ?_
    rw [Cell.addrs, Value.addrsAll_append]
    refine knows_append_iff.mpr ⟨knows_of_cell? hT hv hc, ?_⟩
    simpa [Value.addrsAll] using hw
  · exact confined_unfit

theorem confined_setField (places : Precision) (name : String) (hv : Knows T h v.addrs)
    (hw : Knows T h w.addrs) : Confined T h ((Operation.setField name).run places [v, w] h) := by
  simp only [run]
  split
  · rename_i b cls fields hc
    have hparts := knows_append_iff.mpr ⟨knows_of_cell? hT hv hc, hw⟩
    exact confined_set hT hv hc nofun nofun
      (hparts.mono (mem_addrs_setField cls fields name w))
  · exact confined_unfit

/-- **Every operation stays where its operands are.** -/
theorem confined_run (places : Precision) (op : Operation) {operands : List Value}
    (hvs : Knows T h (Value.addrsAll operands)) :
    Confined T h (op.run places operands h) := by
  have hknown : ∀ u ∈ operands, Knows T h u.addrs := fun u hu =>
    hvs.mono (Value.mem_addrsAll_of_mem hu)
  rw [run.eq_def]
  split
  · exact confined_payload hT places (hknown _ (by simp))
  · -- contain
    rename_i v
    rw [Confined, Value.addrs_ref]
    exact hT.stays_wrap (hknown v (by simp))
  · -- kindName
    split
    · exact confined_plain hT (Value.addrs_string _)
    · exact confined_unfit
  · -- passing
    split
    · exact confined_plain hT (Value.addrs_string _)
    · exact confined_plain hT (Value.addrs_string _)
    · exact confined_plain hT (Value.addrs_string _)
  · -- text
    split
    · exact confined_plain hT (Value.addrs_string _)
    · exact confined_worded _ _
  · -- collect
    exact confined_allocValue hT hvs nofun
  · -- length
    split
    · exact confined_scalar hT _
    · exact confined_unfit
  · exact confined_field hT places _ (hknown _ (by simp))
  · exact confined_getItem hT (hknown _ (by simp)) _
  · exact confined_sum hT (hknown _ (by simp)) (hknown _ (by simp))
  · exact confined_onIntegers hT nofun
  · refine confined_onIntegers hT fun m n e he => ?_
    rw [floorDiv] at he
    split at he
    · exact ⟨_, _, (Except.error.inj he).symm⟩
    · simp at he
  · exact confined_compare hT _ _
  · exact confined_compare hT _ _
  · exact confined_assign hT places (hknown _ (by simp)) (hknown _ (by simp))
  · exact confined_push hT places (hknown _ (by simp)) (hknown _ (by simp))
  · exact confined_putItem hT (hknown _ (by simp)) _ (hknown _ (by simp))
  · exact confined_setField hT places _ (hknown _ (by simp)) (hknown _ (by simp))
  · exact confined_unfit

end Confined
end Operation
end ScriptHost
