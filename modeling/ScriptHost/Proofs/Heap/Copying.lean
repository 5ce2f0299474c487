import ScriptHost.Proofs.Heap.Reachability
import ScriptHost.Value.Cast

/-!
# Copies and new values are apart from the heap

A datum that is entered and a value that is copied get cells behind the heap, and these
cells refer to one another only.  `Annexed h as h'` says this for all ways of making values:
`h'` is `h` with cells added, the addresses `as` are among the added ones, and no added cell
refers to one that was there before.

* `Annexed.append`, `Annexed.alloc`: values made one after another, and a cell around them.
* `annexed_copy`, `annexed_clone`, `annexed_tryCast`: copies of values, containers, payloads.
* `annexed_build`: data that are entered.
* `Annexed.le_of_reaches`, `Annexed.not_shares`: whatever is reached from such a value is new, so
  it shares nothing with the values that were there.
* `kindOf_rename`, `kindOf_copy`, `exists_tryCast`: a copy has the kind of the original, so a cast to the kind
  of the payload gives a value, and the value has this kind too.
-/

namespace ScriptHost

/-! ## Renaming -/

mutual

theorem Value.addrs_rename (r : Renaming) : ∀ v : Value, (v.rename r).addrs = v.addrs.map r.addr
  | .scalar s => by simp [Value.rename]
  | .undefined true m => by simp [Value.rename]
  | .undefined false m => by simp [Value.rename]
  | .tuple items => by simp [Value.rename, Value.addrsAll_renameAll r items]
  | .ref a => by simp [Value.rename]

theorem Value.addrsAll_renameAll (r : Renaming) :
    ∀ vs : List Value, Value.addrsAll (Value.renameAll r vs) = (Value.addrsAll vs).map r.addr
  | [] => by simp [Value.renameAll, Value.addrsAll]
  | v :: rest => by
    simp [Value.renameAll, Value.addrsAll, Value.addrs_rename r v,
      Value.addrsAll_renameAll r rest]

end

theorem Cell.addrs_rename (r : Renaming) (c : Cell) :
    (c.rename r).addrs = c.addrs.map r.addr := by
  cases c with
  | array items => exact Value.addrsAll_renameAll r items
  | map entries => simp [Cell.rename, Cell.addrs, List.flatMap_map, List.map_flatMap,
      Value.addrs_rename]
  | object cls fields => simp [Cell.rename, Cell.addrs, List.flatMap_map, List.map_flatMap,
      Value.addrs_rename]
  | dynamic v => exact Value.addrs_rename r v
  | handle slot => rfl

@[simp] theorem Cell.kind_rename (r : Renaming) (c : Cell) : (c.rename r).kind = c.kind := by
  cases c <;> rfl

namespace Heap

variable {h h₁ h₂ : Heap} {a b : Addr} {c : Cell} {v : Value} {k : Kind} {as bs : List Addr}

/-- What a value holds once the container is taken off is reached from the value. -/
theorem reaches_of_mem_unwrap (hb : b ∈ (h.unwrap v).addrs) : Reaches h v.addrs b := by
  rw [unwrap] at hb
  cases hv : h.dynamic? v with
  | none =>
    rw [hv] at hb
    exact .root hb
  | some a =>
    rw [hv] at hb
    have hroot : a ∈ v.addrs := by simp [(dynamic?_eq_some_iff.mp hv).1]
    exact (Reaches.root hroot).step (mem_childrenOf_of_payload hb)

/-! ## Cells made behind a heap -/

/-- The addresses are of cells that were added to a heap and refer to added cells only. -/
structure Annexed (h : Heap) (as : List Addr) (h' : Heap) : Prop extends Extends h h' where
  closed : h'.Closed
  apart : ∀ a, h.size ≤ a → ∀ b ∈ h'.childrenOf a, h.size ≤ b
  added : ∀ a ∈ as, h.size ≤ a ∧ a < h'.size

theorem Closed.annexed_nil (hclosed : h.Closed) : Annexed h [] h where
  toExtends := .refl h
  closed := hclosed
  apart a ha b hb := by
    obtain ⟨c, hc, -⟩ := mem_childrenOf_iff.mp hb
    exact absurd (lt_of_get? hc) (Nat.not_lt.mpr ha)
  added _ ha := absurd ha List.not_mem_nil

/-- Values made one after another. -/
theorem Annexed.append (hfirst : Annexed h as h₁) (hsecond : Annexed h₁ bs h₂) :
    Annexed h (as ++ bs) h₂ where
  toExtends := hfirst.toExtends.trans hsecond.toExtends
  closed := hsecond.closed
  apart a ha b hb := by
    by_cases hlt : a < h₁.size
    · rw [childrenOf_congr (hsecond.get?_eq a hlt)] at hb
      exact hfirst.apart a ha b hb
    · exact Nat.le_trans hfirst.size_le (hsecond.apart a (Nat.not_lt.mp hlt) b hb)
  added a ha := by
    rcases List.mem_append.mp ha with ha | ha
    · exact ⟨(hfirst.added a ha).1, Nat.lt_of_lt_of_le (hfirst.added a ha).2 hsecond.size_le⟩
    · exact ⟨Nat.le_trans hfirst.size_le (hsecond.added a ha).1, (hsecond.added a ha).2⟩

/-- Whatever is reached from added cells has been added. -/
theorem Annexed.le_of_reaches (hnew : Annexed h as h₁) (hb : Reaches h₁ as b) : h.size ≤ b :=
  hb.closed_under (P := fun b => h.size ≤ b) (fun a ha => (hnew.added a ha).1) hnew.apart

/-- A value that is made of added cells shares nothing with a value of the heap. -/
theorem Annexed.not_shares {w : Value} (hnew : Annexed h w.addrs h₁) (hclosed : h.Closed)
    (hv : h.Holds v) : ¬ h₁.Shares v w := by
  rintro ⟨a, hva, hwa⟩
  have hlt := ((hnew.reaches_iff hclosed hv).mp hva).lt hclosed hv
  exact Nat.not_lt.mpr (hnew.le_of_reaches hwa) hlt

/-- A cell around values that have just been made. -/
theorem Annexed.alloc (hnew : Annexed h as h₁) (hc : ∀ a ∈ c.addrs, Reaches h₁ as a) :
    Annexed h [h₁.size] (h₁.alloc c).2 where
  toExtends := hnew.toExtends.trans (extends_alloc h₁ c)
  closed := hnew.closed.alloc fun a ha => (hc a ha).lt hnew.closed fun r hr => (hnew.added r hr).2
  apart a ha b hb := by
    by_cases heq : a = h₁.size
    · rw [heq, childrenOf_eq_of_get? (get?_alloc_self h₁ c)] at hb
      exact hnew.le_of_reaches (hc b hb)
    · rw [childrenOf_congr (get?_alloc_of_ne h₁ c heq)] at hb
      exact hnew.apart a ha b hb
  added a ha := by
    rw [List.mem_singleton.mp ha, size_alloc]
    exact ⟨hnew.size_le, Nat.lt_succ_self _⟩

theorem Annexed.wrap (hnew : Annexed h v.addrs h₁) : Annexed h [h₁.size] (h₁.wrap v).2 :=
  hnew.alloc fun _ ha => reaches_of_mem_unwrap ha

/-! ## Copies -/

theorem mem_reachable_of_root (h : Heap) (ha : a ∈ as) : a ∈ h.reachable as :=
  subset_grow h h.size _ (List.mem_eraseDups.mpr ha)

/-- A listed address is moved behind the heap, to its place in the list. -/
theorem moving_addr_of_mem (h : Heap) {old : List Addr} (ha : a ∈ old) :
    ∃ i, old[i]? = some a ∧ (h.moving old).addr a = h.size + i := by
  cases hi : old.idxOf? a with
  | none => exact absurd ha (List.idxOf?_eq_none_iff.mp hi)
  | some i =>
    refine ⟨i, ?_, by simp only [moving, hi]⟩
    obtain ⟨hlt, heq, -⟩ := List.findIdx?_eq_some_iff_getElem.mp hi
    rw [List.getElem?_eq_getElem hlt, eq_of_beq heq]

theorem size_copy (h : Heap) (v : Value) :
    (h.copy v).2.size = h.size + (h.reachable v.addrs).length := by
  simp [copy, size]

theorem extends_copy (h : Heap) (v : Value) : Extends h (h.copy v).2 where
  size_le := by
    rw [size_copy]
    exact Nat.le_add_right _ _
  get?_eq a ha := by
    simp only [copy, get?]
    rw [Array.getElem?_append_left ha]

/-- The cells of a copy are those that are copied, renamed. -/
theorem get?_copy (h : Heap) (v : Value) (i : Nat) :
    (h.copy v).2.get? (h.size + i) = (h.reachable v.addrs)[i]?.map fun a =>
      ((h.get? a).getD default).rename (h.moving (h.reachable v.addrs)) := by
  simp only [copy, get?, size]
  rw [Array.getElem?_append_right (Nat.le_add_right _ _), Nat.add_sub_cancel_left]
  simp

theorem annexed_copy (hclosed : h.Closed) (hv : h.Holds v) :
    Annexed h (h.copy v).1.addrs (h.copy v).2 := by
  have hext := extends_copy h v
  -- what a moved address is, whether it occurs in the value or in one of the copied cells
  have hmoved : ∀ a, Reaches h v.addrs a →
      h.size ≤ (h.moving (h.reachable v.addrs)).addr a ∧
        (h.moving (h.reachable v.addrs)).addr a < (h.copy v).2.size := by
    intro a ha
    obtain ⟨i, hi, heq⟩ := moving_addr_of_mem h ((mem_reachable_iff hclosed).mpr ha)
    have hlt : i < (h.reachable v.addrs).length := (List.getElem?_eq_some_iff.mp hi).1
    rw [heq, size_copy]
    exact ⟨Nat.le_add_right _ _, Nat.add_lt_add_left hlt _⟩
  have hchild : ∀ a, h.size ≤ a → ∀ b ∈ (h.copy v).2.childrenOf a,
      h.size ≤ b ∧ b < (h.copy v).2.size := by
    intro a ha b hb
    obtain ⟨c, hc, hb⟩ := mem_childrenOf_iff.mp hb
    obtain ⟨i, rfl⟩ := Nat.exists_eq_add_of_le ha
    rw [get?_copy, Option.map_eq_some_iff] at hc
    obtain ⟨source, hi, rfl⟩ := hc
    have hsource := (mem_reachable_iff hclosed).mp (List.mem_of_getElem? hi)
    obtain ⟨c, hc⟩ := exists_get? (hsource.lt hclosed hv)
    rw [hc, Option.getD_some, Cell.addrs_rename] at hb
    obtain ⟨b', hb', rfl⟩ := List.mem_map.mp hb
    exact hmoved b' (hsource.step (mem_childrenOf_iff.mpr ⟨c, hc, hb'⟩))
  refine ⟨hext, ?_, fun a ha b hb => (hchild a ha b hb).1, ?_⟩
  · intro a b hb
    by_cases ha : a < h.size
    · rw [childrenOf_congr (hext.get?_eq a ha)] at hb
      exact Nat.lt_of_lt_of_le (hclosed a b hb) hext.size_le
    · exact (hchild a (Nat.not_lt.mp ha) b hb).2
  · intro a ha
    have hrename : (h.copy v).1.addrs = v.addrs.map (h.moving (h.reachable v.addrs)).addr :=
      Value.addrs_rename _ v
    rw [hrename] at ha
    obtain ⟨a', ha', rfl⟩ := List.mem_map.mp ha
    exact hmoved a' (.root ha')

/-- What is copied along with a value has the kind of the original. -/
theorem kindOf_rename {w : Value} (hw : ∀ a ∈ w.addrs, a ∈ h.reachable v.addrs ∧ a < h.size) :
    (h.copy v).2.kindOf (w.rename (h.moving (h.reachable v.addrs))) = h.kindOf w := by
  cases w with
  | ref a =>
    obtain ⟨ha, hlt⟩ := hw a (by simp)
    obtain ⟨c, hc⟩ := exists_get? hlt
    obtain ⟨i, hi, heq⟩ := moving_addr_of_mem h ha
    rw [Value.rename, heq, kindOf, kindOf, get?_copy, hi, Option.map_some, hc, Option.getD_some]
    exact Cell.kind_rename _ c
  | undefined single m => cases single <;> rfl
  | _ => rfl

/-- A copy has the kind of the original. -/
theorem kindOf_copy (hv : h.Holds v) : (h.copy v).2.kindOf (h.copy v).1 = h.kindOf v :=
  kindOf_rename fun a ha => ⟨mem_reachable_of_root h ha, hv a ha⟩

theorem annexed_clone (hclosed : h.Closed) (a : Addr) :
    Annexed h [(h.clone a).1] (h.clone a).2 :=
  (annexed_copy hclosed (hclosed.holds_payload a)).wrap

/-- The copy of a container is a container. -/
theorem get?_clone (h : Heap) (a : Addr) :
    ∃ v, (h.clone a).2.get? (h.clone a).1 = some (.dynamic v) :=
  ⟨_, get?_alloc_self _ _⟩

/-! ## Casts -/

theorem tryCast_dynamic (h : Heap) (a : Addr) :
    h.tryCast a .dynamic = (some (.ref (h.clone a).1), (h.clone a).2) := by
  rw [tryCast, if_pos rfl]

theorem tryCast_of_kindOf (hk : k ≠ .dynamic) (hpayload : h.kindOf (h.payload a) = k) :
    h.tryCast a k = (some (h.copy (h.payload a)).1, (h.copy (h.payload a)).2) := by
  rw [tryCast, if_neg hk, if_pos hpayload]

theorem tryCast_of_kindOf_ne (hk : k ≠ .dynamic) (hpayload : h.kindOf (h.payload a) ≠ k) :
    h.tryCast a k = (none, h) := by
  rw [tryCast, if_neg hk, if_neg hpayload]

theorem isKind_iff : h.isKind a k ↔ k = .dynamic ∨ h.kindOf (h.payload a) = k := by
  simp [isKind]

theorem annexed_tryCast (hclosed : h.Closed) (a : Addr) (k : Kind) :
    Annexed h ((h.tryCast a k).1.getD .unit).addrs (h.tryCast a k).2 := by
  by_cases hk : k = .dynamic
  · rw [hk, tryCast_dynamic]
    simpa using annexed_clone hclosed a
  · by_cases hpayload : h.kindOf (h.payload a) = k
    · rw [tryCast_of_kindOf hk hpayload]
      exact annexed_copy hclosed (hclosed.holds_payload a)
    · rw [tryCast_of_kindOf_ne hk hpayload]
      simpa using hclosed.annexed_nil

/-- **A cast to the kind of the payload, or to a container, gives a value of just this
kind.** -/
theorem exists_tryCast (hclosed : h.Closed) (hk : h.isKind a k) :
    ∃ v, (h.tryCast a k).1 = some v ∧ (h.tryCast a k).2.kindOf v = k := by
  by_cases hdynamic : k = .dynamic
  · obtain ⟨w, hw⟩ := get?_clone h a
    rw [hdynamic, tryCast_dynamic]
    refine ⟨_, rfl, ?_⟩
    rw [kindOf, hw]
    rfl
  · have hpayload := (isKind_iff.mp hk).resolve_left hdynamic
    rw [tryCast_of_kindOf hdynamic hpayload]
    refine ⟨_, rfl, ?_⟩
    rw [kindOf_copy (hclosed.holds_payload a), hpayload]

/-! ## Data that are entered -/

theorem annexed_mark (hclosed : h.Closed) (single : Bool) :
    Annexed h (h.mark single).1.addrs (h.mark single).2 := by
  have hext : Extends h (h.mark single).2 := ⟨Nat.le_refl _, fun _ _ => rfl⟩
  exact ⟨hext, hclosed, hclosed.annexed_nil.apart, by simp [mark]⟩

theorem annexed_buildScalar (hclosed : h.Closed) (s : Scalar) :
    Annexed h (h.buildScalar s).1.addrs (h.buildScalar s).2 := by
  rw [buildScalar.eq_def]
  split
  · exact annexed_mark hclosed false
  · exact annexed_mark hclosed true
  · simpa using hclosed.annexed_nil

mutual

theorem annexed_build :
    ∀ (d : Datum) {h : Heap}, h.Closed → Annexed h (h.build d).1.addrs (h.build d).2
  | .scalar s, _, hclosed => by
    rw [build]
    exact annexed_buildScalar hclosed s
  | .array items, _, hclosed => by
    simp only [build, Value.addrs_ref]
    exact (annexed_buildAll items hclosed).alloc fun _ => .root
  | .map entries, _, hclosed => by
    simp only [build, Value.addrs_ref]
    exact (annexed_buildEntries entries hclosed).alloc fun _ => .root
  | .tuple items, _, hclosed => by
    simp only [build, Value.addrs_tuple]
    exact annexed_buildAll items hclosed
  | .object cls fields, _, hclosed => by
    simp only [build, Value.addrs_ref]
    exact (annexed_buildFields fields hclosed).alloc fun _ => .root
  | .dynamic d, _, hclosed => by
    simp only [build, Value.addrs_ref]
    exact (annexed_build d hclosed).wrap
  | .handle d, _, hclosed => by
    simp only [build, Value.addrs_ref]
    exact (annexed_build d hclosed).wrap.alloc fun _ => .root

theorem annexed_buildAll :
    ∀ (ds : List Datum) {h : Heap}, h.Closed →
      Annexed h (Value.addrsAll (h.buildAll ds).1) (h.buildAll ds).2
  | [], _, hclosed => by simpa [buildAll, Value.addrsAll] using hclosed.annexed_nil
  | d :: rest, _, hclosed => by
    have hfirst := annexed_build d hclosed
    simp only [buildAll, Value.addrsAll]
    exact hfirst.append (annexed_buildAll rest hfirst.closed)

theorem annexed_buildEntries :
    ∀ (es : List (Datum × Datum)) {h : Heap}, h.Closed →
      Annexed h (Cell.map (h.buildEntries es).1).addrs (h.buildEntries es).2
  | [], _, hclosed => by simpa [buildEntries, Cell.addrs] using hclosed.annexed_nil
  | (key, value) :: rest, _, hclosed => by
    have hkey := annexed_build key hclosed
    have hvalue := annexed_build value hkey.closed
    have hrest := annexed_buildEntries rest hvalue.closed
    simpa only [buildEntries, Cell.addrs, List.flatMap_cons] using
      (hkey.append hvalue).append hrest

theorem annexed_buildFields :
    ∀ (fs : List (String × Datum)) {h : Heap}, h.Closed →
      Annexed h (Cell.object "" (h.buildFields fs).1).addrs (h.buildFields fs).2
  | [], _, hclosed => by simpa [buildFields, Cell.addrs] using hclosed.annexed_nil
  | (name, value) :: rest, _, hclosed => by
    have hvalue := annexed_build value hclosed
    have hrest := annexed_buildFields rest hvalue.closed
    simpa only [buildFields, Cell.addrs, List.flatMap_cons] using hvalue.append hrest

end

end Heap
end ScriptHost
