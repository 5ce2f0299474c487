import ScriptHost.Call.Fault
import ScriptHost.Proofs.Heap.Flatness
import ScriptHost.Proofs.Heap.Reading
import ScriptHost.Proofs.Heap.Showing

/-!
# What the texts of a value depend on

A text is made from the cells that the value reaches and from no other, so it stays as it is when
cells are added or others change.  This holds of values that come back to themselves as well, and
also where there is no text: the failure is the same.

* `Covers`: another heap has the cells that are reached from some roots.
* `formText_congr`, `Extends.formText`: texts depend on no cell but those that are reached.
* `Flat.formText_unwrap`: a container is shown as its payload, but for the exact form.
-/

namespace ScriptHost

namespace Heap

variable {h h' : Heap} {roots : List Addr} {a b : Addr} {v w : Value} {places : Precision}

/-! ## Cells that are reached -/

theorem mem_followed_of_shownIn (hw : w ∈ h.shownIn a) (hb : b ∈ w.addrs) : b ∈ h.followed a := by
  rw [shownIn] at hw
  rw [followed]
  split at hw
  · rename_i items hc
    simp only [hc, Cell.addrs]
    exact Value.mem_addrsAll_iff.mpr ⟨w, hw, hb⟩
  · rename_i entries hc
    simp only [hc, Cell.addrs, List.mem_flatMap]
    obtain ⟨entry, hentry, hw⟩ := List.mem_flatMap.mp hw
    refine ⟨entry, hentry, List.mem_append.mpr ?_⟩
    rcases List.mem_cons.mp hw with rfl | hw
    · exact .inl hb
    · exact .inr (List.mem_singleton.mp hw ▸ hb)
  · rename_i v hc
    simp only [hc, Cell.addrs]
    exact List.mem_singleton.mp hw ▸ hb
  · rename_i slot hc
    simp only [hc]
    exact List.mem_singleton.mp hw ▸ hb
  · exact absurd hw List.not_mem_nil

theorem reaches_unwrap (hv : ∀ a ∈ v.addrs, Reaches h roots a) :
    ∀ a ∈ (h.unwrap v).addrs, Reaches h roots a :=
  fun _ ha => (reaches_of_mem_unwrap ha).trans hv

/-- Another heap has the cells that are reached from the roots, and at least as many. -/
structure Covers (h h' : Heap) (roots : List Addr) : Prop where
  closed : h.Closed
  held : ∀ a ∈ roots, a < h.size
  size_le : h.size ≤ h'.size
  get?_eq : ∀ a, Reaches h roots a → h'.get? a = h.get? a

/-! ### The exact form -/

section Steps

variable {f g : List Value → Addr → Shown} {trail : List Value} {inner inner' : Addr → Shown}

theorem elidedStep_congr (hget : h'.get? a = h.get? a)
    (hslot : ∀ slot, h.get? a = some (.handle slot) → h'.payload slot = h.payload slot)
    (hinner : ∀ b, .ref b ∈ h.shownIn a → inner b = inner' b) :
    h'.elidedStep inner a = h.elidedStep inner' a := by
  have hwith (v : Value) (hv : v ∈ h.shownIn a) : elidedWith inner v = elidedWith inner' v := by
    cases v with
    | ref b => exact hinner b hv
    | _ => rfl
  rw [elidedStep, elidedStep, hget]
  rw [shownIn] at hwith
  cases hc : h.get? a with
  | none => rfl
  | some c =>
    rw [hc] at hwith
    cases c with
    | dynamic v => simp [hwith v (List.mem_singleton_self v)]
    | handle slot => simp [hslot slot hc, hwith _ (List.mem_singleton_self (h.payload slot))]
    | _ => rfl

mutual

/-- The exact text of a value depends on those of the cells that it refers to. -/
theorem exactWith_congr : ∀ (v : Value) (t : List Value),
    (∀ t' b, t ⊆ t' → b ∈ v.addrs → f t' b = g t' b) → exactWith f t v = exactWith g t v
  | .scalar s, t, _ => rfl
  | .undefined single m, t, _ => rfl
  | .tuple items, t, hfg => by
    rw [exactWith, exactWith, exactAll_congr items _ fun t' b ht hb => ?_]
    exact hfg t' b (List.subset_of_cons_subset ht) (by simpa using hb)
  | .ref a, t, hfg => hfg t a (List.Subset.refl t) (by simp)

theorem exactAll_congr : ∀ (vs t : List Value),
    (∀ t' b, t ⊆ t' → b ∈ Value.addrsAll vs → f t' b = g t' b) → exactAll f t vs = exactAll g t vs
  | [], t, _ => rfl
  | v :: rest, t, hfg => by
    rw [exactAll, exactAll, exactWith_congr v t fun t' b ht hb => ?_,
      exactAll_congr rest t fun t' b ht hb => ?_]
    · exact hfg t' b ht (List.mem_append_right _ hb)
    · exact hfg t' b ht (List.mem_append_left _ hb)

end

theorem exactAll_congr_of_mem {vs : List Value}
    (hall : ∀ v ∈ vs, exactWith f trail v = exactWith g trail v) :
    exactAll f trail vs = exactAll g trail vs := by
  induction vs with
  | nil => rfl
  | cons v rest ih =>
    rw [List.forall_mem_cons] at hall
    rw [exactAll, exactAll, hall.1, ih hall.2]

theorem exactEntries_congr {entries : List (Value × Value)}
    (hall : ∀ v ∈ entries.flatMap (fun (k, v) => [k, v]),
      exactWith f trail v = exactWith g trail v) :
    exactEntries f trail entries = exactEntries g trail entries := by
  induction entries with
  | nil => rfl
  | cons entry rest ih =>
    obtain ⟨k, v⟩ := entry
    rw [List.flatMap_cons, List.forall_mem_append, List.forall_mem_cons,
      List.forall_mem_singleton] at hall
    obtain ⟨⟨hk, hv⟩, hrest⟩ := hall
    rw [exactEntries, exactEntries, hk, hv, ih hrest]

theorem exactStep_congr (hget : h'.get? a = h.get? a)
    (hslot : ∀ slot, h.get? a = some (.handle slot) → h'.payload slot = h.payload slot)
    (hall : ∀ w ∈ h.shownIn a, exactWith f trail w = exactWith g trail w) :
    h'.exactStep f trail a = h.exactStep g trail a := by
  rw [exactStep, exactStep, hget]
  rw [shownIn] at hall
  cases hc : h.get? a with
  | none => rfl
  | some c =>
    rw [hc] at hall
    cases c with
    | array items => simp only [exactAll_congr_of_mem hall]
    | map entries => simp only [exactEntries_congr hall]
    | object cls fields => rfl
    | dynamic v => simp [hall v (List.mem_singleton_self v)]
    | handle slot => simp [hslot slot hc, hall _ (List.mem_singleton_self (h.payload slot))]

end Steps

namespace Covers

variable (hcovers : Covers h h' roots)
include hcovers

theorem lt (ha : Reaches h roots a) : a < h.size := ha.lt hcovers.closed hcovers.held

theorem payload_eq (ha : Reaches h roots a) : h'.payload a = h.payload a := by
  rw [payload, payload, hcovers.get?_eq a ha]

theorem slot_eq (ha : Reaches h roots a) (slot : Addr) (hc : h.get? a = some (.handle slot)) :
    h'.payload slot = h.payload slot :=
  hcovers.payload_eq
    (ha.step (mem_childrenOf_iff.mpr ⟨_, hc, List.mem_singleton_self slot⟩))

theorem size_lt : remaining h.size [] < h'.size + 1 := by
  rw [remaining_nil]
  exact Nat.lt_succ_of_le hcovers.size_le

theorem elided_eq (ha : Reaches h roots a) : h'.elided a = h.elided a := by
  refine follow_congr (P := Reaches h roots) (fun _ ha => hcovers.lt ha) (fun _ _ => rfl) ?_
    hcovers.size_lt (by rw [remaining_nil]; exact Nat.lt_succ_self _) ha
  intro f g t a ha hfg
  refine elidedStep_congr (hcovers.get?_eq a ha) (hcovers.slot_eq ha) fun b hb => ?_
  exact hfg t b (List.Subset.refl t) (ha.followed (mem_followed_of_shownIn hb (by simp)))

theorem exact_eq (hv : ∀ a ∈ v.addrs, Reaches h roots a) : h'.exact v = h.exact v := by
  have hsize : remaining h.size [] < h.size + 1 := by rw [remaining_nil]; exact Nat.lt_succ_self _
  refine exactWith_congr v [] fun t b _ hb => ?_
  have hleft : remaining h.size t ≤ remaining h.size [] := remaining_le (List.nil_subset t)
  refine follow_congr (P := Reaches h roots) (fun _ ha => hcovers.lt ha)
    (fun _ ha => hcovers.elided_eq ha) ?_ (Nat.lt_of_le_of_lt hleft hcovers.size_lt)
    (Nat.lt_of_le_of_lt hleft hsize) (hv b hb)
  intro f g t a ha hfg
  refine exactStep_congr (hcovers.get?_eq a ha) (hcovers.slot_eq ha) fun w hw => ?_
  refine exactWith_congr w t fun t' b ht hb => hfg t' b ht ?_
  exact ha.followed (mem_followed_of_shownIn hw hb)

theorem plain_eq (hv : ∀ a ∈ v.addrs, Reaches h roots a) : h'.plain v = h.plain v := by
  cases v with
  | scalar s => rfl
  | undefined single m => rfl
  | _ => exact hcovers.exact_eq hv

/-! ### The debug form -/

theorem unwrap_eq (hv : ∀ a ∈ v.addrs, Reaches h roots a) : h'.unwrap v = h.unwrap v := by
  cases v with
  | ref a =>
    have ha : Reaches h roots a := hv a (by simp)
    rw [unwrap, unwrap, dynamic?, dynamic?, hcovers.get?_eq a ha]
    split
    · rename_i b hb
      split at hb
      · obtain rfl := Option.some.inj hb
        exact hcovers.payload_eq ha
      · cases hb
    · rfl
  | _ => rfl

variable {inner inner' : Addr → Shown}

theorem debugWith_eq (hv : ∀ a ∈ v.addrs, Reaches h roots a)
    (hinner : ∀ a, Reaches h roots a → inner a = inner' a) :
    h'.debugWith inner v = h.debugWith inner' v := by
  have hreached := reaches_unwrap hv
  rw [debugWith, debugWith, hcovers.unwrap_eq hv]
  cases hw : h.unwrap v with
  | tuple items => exact hcovers.exact_eq (hw ▸ hreached)
  | ref a => exact hinner a (hreached a (by simp [hw]))
  | _ => rfl

theorem debugAll_eq {vs : List Value} (hall : ∀ v ∈ vs, ∀ a ∈ v.addrs, Reaches h roots a)
    (hinner : ∀ a, Reaches h roots a → inner a = inner' a) :
    h'.debugAll inner vs = h.debugAll inner' vs := by
  induction vs with
  | nil => rfl
  | cons v rest ih =>
    rw [List.forall_mem_cons] at hall
    rw [debugAll, debugAll, hcovers.debugWith_eq hall.1 hinner, ih hall.2]

theorem debugEntries_eq {entries : List (Value × Value)}
    (hall : ∀ entry ∈ entries, (∀ a ∈ entry.1.addrs, Reaches h roots a) ∧
      ∀ a ∈ entry.2.addrs, Reaches h roots a)
    (hinner : ∀ a, Reaches h roots a → inner a = inner' a) :
    h'.debugEntries inner entries = h.debugEntries inner' entries := by
  induction entries with
  | nil => rfl
  | cons entry rest ih =>
    obtain ⟨k, v⟩ := entry
    rw [List.forall_mem_cons] at hall
    rw [debugEntries, debugEntries, hcovers.plain_eq hall.1.1,
      hcovers.debugWith_eq hall.1.2 hinner, ih hall.2]

theorem debugStep_eq (ha : Reaches h roots a)
    (hinner : ∀ a, Reaches h roots a → inner a = inner' a) :
    h'.debugStep inner a = h.debugStep inner' a := by
  have hin {w : Value} (hw : w ∈ h.shownIn a) : ∀ b ∈ w.addrs, Reaches h roots b :=
    fun b hb => ha.followed (mem_followed_of_shownIn hw hb)
  have hexact : h'.exact (.ref a) = h.exact (.ref a) := hcovers.exact_eq (by simpa using ha)
  rw [debugStep, debugStep, hcovers.get?_eq a ha, hexact]
  cases hc : h.get? a with
  | none => rfl
  | some c =>
    cases c with
    | array items =>
      have hall : ∀ v ∈ items, ∀ b ∈ v.addrs, Reaches h roots b :=
        fun v hv => hin (by simpa [shownIn, hc] using hv)
      simp only [hcovers.debugAll_eq hall hinner]
    | map entries =>
      have hall : ∀ entry ∈ entries, (∀ b ∈ entry.1.addrs, Reaches h roots b) ∧
          ∀ b ∈ entry.2.addrs, Reaches h roots b := by
        intro entry hentry
        have hmem : ∀ w ∈ [entry.1, entry.2], w ∈ h.shownIn a := by
          intro w hw
          simp only [shownIn, hc, List.mem_flatMap]
          exact ⟨entry, hentry, hw⟩
        exact ⟨hin (hmem _ (by simp)), hin (hmem _ (by simp))⟩
      simp only [hcovers.debugEntries_eq hall hinner]
    | _ => rfl

theorem debug_eq (hv : ∀ a ∈ v.addrs, Reaches h roots a) : h'.debug v = h.debug v := by
  refine hcovers.debugWith_eq hv fun a ha => ?_
  refine follow_congr (P := Reaches h roots) (fun _ ha => hcovers.lt ha) (fun _ _ => rfl) ?_
    hcovers.size_lt (by rw [remaining_nil]; exact Nat.lt_succ_self _) ha
  intro f g t a ha hfg
  exact hcovers.debugStep_eq ha fun b hb => hfg t b (List.Subset.refl t) hb

theorem kindOf_eq (hv : ∀ a ∈ v.addrs, Reaches h roots a) : h'.kindOf v = h.kindOf v := by
  cases v with
  | ref a => rw [kindOf, kindOf, hcovers.get?_eq a (hv a (by simp))]
  | _ => rfl

theorem display_eq (hv : ∀ a ∈ v.addrs, Reaches h roots a) :
    h'.display places v = h.display places v := by
  have hreached := reaches_unwrap hv
  rw [display, display, hcovers.unwrap_eq hv]
  cases hw : h.unwrap v with
  | tuple items => exact hcovers.plain_eq (hw ▸ hreached)
  | ref a =>
    have ha : ∀ b ∈ (Value.ref a).addrs, Reaches h roots b := hw ▸ hreached
    simp only [hcovers.kindOf_eq ha, debugMap, hcovers.debug_eq ha, hcovers.plain_eq ha]
  | _ => rfl

end Covers

/-- **The texts of a value depend on no cell but those that the value reaches.** -/
theorem formText_congr (hcovers : Covers h h' v.addrs) (places : Precision) (form : TextForm) :
    h'.formText places form v = h.formText places form v := by
  have hv : ∀ a ∈ v.addrs, Reaches h v.addrs a := fun _ ha => .root ha
  cases form with
  | display => rw [formText, formText, hcovers.display_eq hv]
  | debug => rw [formText, formText, hcovers.debug_eq hv]
  | markedDebug => rw [formText, formText, debugMap, debugMap, hcovers.debug_eq hv]
  | exact => rw [formText, formText, hcovers.exact_eq hv]

/-- The texts of a value do not change when cells are added. -/
theorem Extends.formText (hext : Extends h h') (hclosed : h.Closed) (hv : h.Holds v)
    (places : Precision) (form : TextForm) :
    h'.formText places form v = h.formText places form v :=
  formText_congr ⟨hclosed, hv, hext.size_le, fun _ hb => hext.get?_eq _ (hb.lt hclosed hv)⟩
    places form

/-! ## Containers -/

/-- A container is shown as its payload, but for the exact form. -/
theorem Flat.formText_unwrap {form : TextForm} (hflat : h.Flat) (hform : form ≠ .exact)
    (v : Value) : h.formText places form (h.unwrap v) = h.formText places form v := by
  have hunwrap : h.unwrap (h.unwrap v) = h.unwrap v :=
    unwrap_of_kindOf_ne (hflat.kindOf_unwrap v)
  have hdebug : h.debug (h.unwrap v) = h.debug v := by
    rw [debug, debug, debugWith, debugWith, hunwrap]
  cases form with
  | display => rw [formText, formText, display, display, hunwrap]
  | debug => rw [formText, formText, hdebug]
  | markedDebug => rw [formText, formText, debugMap, debugMap, hdebug]
  | exact => exact absurd rfl hform

end Heap
end ScriptHost
