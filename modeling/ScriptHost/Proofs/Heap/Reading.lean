import ScriptHost.Proofs.Heap.Reachability

/-!
# Reading a value

A value is read by following references, and `Heap.readCell` bounds how many may be followed in a
row.  Reading with a greater bound gives the same, where it gives anything, and as long as it gives
more than before it gives at least one more address of the heap.  So as many steps as there are
cells suffice, and nothing more is read with any greater bound.

What is read of a value depends on nothing but the cells that the value reaches.  So cells that are
added do not change it, whatever they are.

* `Heap.readStep`, `Heap.followed`: one step of reading, and the addresses that it follows.
* `readStep_congr`, `isSome_of_readStep`: it depends on what these give, and needs all of it.
* `readCell_of_size_le`: greater bounds give the same.
* `read?_congr`: what is read depends on no cell but those that are reached; `Extends.read?` for
  cells that are added.
* `kind_of_read?`: what is read is of the kind of the value.
-/

namespace ScriptHost
namespace Heap

variable {h h' : Heap} {f g : Addr → Option Datum} {a b : Addr} {v : Value} {d : Datum} {n m : Nat}

/-! ## Values -/

mutual

theorem readWith_congr : ∀ v : Value, (∀ a ∈ v.addrs, f a = g a) → readWith f v = readWith g v
  | .scalar s, _ => rfl
  | .undefined single m, _ => rfl
  | .tuple items, hfg => by
    rw [readWith, readWith, readAll_congr items (by simpa using hfg)]
  | .ref a, hfg => hfg a (by simp)

theorem readAll_congr :
    ∀ vs : List Value, (∀ a ∈ Value.addrsAll vs, f a = g a) → readAll f vs = readAll g vs
  | [], _ => rfl
  | v :: rest, hfg => by
    rw [Value.addrsAll, List.forall_mem_append] at hfg
    rw [readAll, readAll, readWith_congr v hfg.1, readAll_congr rest hfg.2]

end

mutual

/-- A value is read if each address that it refers to is, and not otherwise. -/
theorem isSome_readWith_iff :
    ∀ v : Value, (readWith f v).isSome ↔ ∀ a ∈ v.addrs, (f a).isSome
  | .scalar s => by simp [readWith]
  | .undefined single m => by simp [readWith]
  | .tuple items => by
    rw [readWith, Option.isSome_map, Value.addrs_tuple]
    exact isSome_readAll_iff items
  | .ref a => by
    rw [Value.addrs_ref, List.forall_mem_singleton]
    rfl

theorem isSome_readAll_iff :
    ∀ vs : List Value, (readAll f vs).isSome ↔ ∀ a ∈ Value.addrsAll vs, (f a).isSome
  | [] => by simp [readAll, Value.addrsAll]
  | v :: rest => by
    rw [Value.addrsAll, List.forall_mem_append, ← isSome_readWith_iff v,
      ← isSome_readAll_iff rest, readAll]
    cases readWith f v <;> cases readAll f rest <;> simp

end

theorem readEntries_cons (f : Addr → Option Datum) (k v : Value) (rest : List (Value × Value)) :
    readEntries f ((k, v) :: rest) = (readWith f k).bind fun key => (readWith f v).bind fun d =>
      (readEntries f rest).map ((key, d) :: ·) := by
  rw [readEntries, readEntries, List.mapM_cons]
  cases hk : readWith f k with
  | none => simp [hk]
  | some key =>
    cases hv : readWith f v with
    | none => simp [hk, hv]
    | some d =>
      simp only [hk, hv, Option.bind_eq_bind, Option.bind_some, Option.map_eq_bind]
      rfl

theorem readFields_cons (f : Addr → Option Datum) (name : String) (v : Value)
    (rest : List (String × Value)) :
    readFields f ((name, v) :: rest) = (readWith f v).bind fun d =>
      (readFields f rest).map ((name, d) :: ·) := by
  rw [readFields, readFields, List.mapM_cons]
  cases hv : readWith f v with
  | none => simp [hv]
  | some d =>
    simp only [hv, Option.bind_eq_bind, Option.bind_some, Option.map_eq_bind]
    rfl

theorem readEntries_congr {entries : List (Value × Value)}
    (hfg : ∀ a ∈ (Cell.map entries).addrs, f a = g a) :
    readEntries f entries = readEntries g entries := by
  induction entries with
  | nil => rfl
  | cons entry rest ih =>
    obtain ⟨k, v⟩ := entry
    simp only [Cell.addrs, List.flatMap_cons, List.forall_mem_append] at hfg ih
    obtain ⟨⟨hk, hv⟩, hrest⟩ := hfg
    rw [readEntries_cons, readEntries_cons, readWith_congr k hk, readWith_congr v hv, ih hrest]

theorem readFields_congr {cls : String} {fields : List (String × Value)}
    (hfg : ∀ a ∈ (Cell.object cls fields).addrs, f a = g a) :
    readFields f fields = readFields g fields := by
  induction fields with
  | nil => rfl
  | cons field rest ih =>
    obtain ⟨name, v⟩ := field
    simp only [Cell.addrs, List.flatMap_cons, List.forall_mem_append] at hfg ih
    rw [readFields_cons, readFields_cons, readWith_congr v hfg.1, ih hfg.2]

theorem isSome_readEntries_iff {entries : List (Value × Value)} :
    (readEntries f entries).isSome ↔ ∀ a ∈ (Cell.map entries).addrs, (f a).isSome := by
  induction entries with
  | nil => simp [readEntries, Cell.addrs]
  | cons entry rest ih =>
    obtain ⟨k, v⟩ := entry
    simp only [Cell.addrs, List.flatMap_cons, List.forall_mem_append] at ih ⊢
    rw [readEntries_cons, ← isSome_readWith_iff k, ← isSome_readWith_iff v, ← ih]
    cases readWith f k <;> cases readWith f v <;> simp

theorem isSome_readFields_iff {cls : String} {fields : List (String × Value)} :
    (readFields f fields).isSome ↔ ∀ a ∈ (Cell.object cls fields).addrs, (f a).isSome := by
  induction fields with
  | nil => simp [readFields, Cell.addrs]
  | cons field rest ih =>
    obtain ⟨name, v⟩ := field
    simp only [Cell.addrs, List.flatMap_cons, List.forall_mem_append] at ih ⊢
    rw [readFields_cons, ← isSome_readWith_iff v, ← ih]
    cases readWith f v <;> simp

/-! ## One step -/

/-- What is read of the cell at an address, given what is read of others. -/
def readStep (h : Heap) (inner : Addr → Option Datum) (a : Addr) : Option Datum :=
  match h.get? a with
  | none => none
  | some (.array items) => (readAll inner items).map .array
  | some (.map entries) => (readEntries inner entries).map .map
  | some (.object cls fields) => (readFields inner fields).map (.object cls)
  | some (.dynamic v) => (readWith inner v).map .dynamic
  | some (.handle slot) => match h.get? slot with
    | some (.dynamic v) => (readWith inner v).map .handle
    | _ => none

/-- The addresses that one step of reading follows: a handle is read as the payload behind it. -/
def followed (h : Heap) (a : Addr) : List Addr :=
  match h.get? a with
  | some (.handle slot) => (h.payload slot).addrs
  | some c => c.addrs
  | none => []

theorem readCell_succ (h : Heap) (n : Nat) (a : Addr) :
    h.readCell (n + 1) a = h.readStep (h.readCell n) a := rfl

/-- A step depends on the cell, on the container behind it if it is a handle, and on what is read of
the addresses it follows. -/
theorem readStep_congr (hget : h'.get? a = h.get? a)
    (hslot : ∀ slot, h.get? a = some (.handle slot) → h'.get? slot = h.get? slot)
    (hfg : ∀ b ∈ h.followed a, f b = g b) : h'.readStep f a = h.readStep g a := by
  rw [readStep, readStep, hget]
  rw [followed] at hfg
  cases hc : h.get? a with
  | none => rfl
  | some c =>
    rw [hc] at hfg
    cases c with
    | array items => exact congrArg (Option.map Datum.array) (readAll_congr items hfg)
    | map entries => exact congrArg (Option.map Datum.map) (readEntries_congr hfg)
    | object cls fields => exact congrArg (Option.map (Datum.object cls)) (readFields_congr hfg)
    | dynamic v => exact congrArg (Option.map Datum.dynamic) (readWith_congr v hfg)
    | handle slot =>
      simp only [hslot slot hc]
      split
      · rename_i v hv
        refine congrArg (Option.map Datum.handle) (readWith_congr v ?_)
        simpa [payload, hv] using hfg
      · rfl

/-- A step needs all that it follows. -/
theorem isSome_of_readStep (hsome : (h.readStep f a).isSome) :
    a < h.size ∧ ∀ b ∈ h.followed a, (f b).isSome := by
  rw [readStep] at hsome
  rw [followed]
  cases hc : h.get? a with
  | none => simp [hc] at hsome
  | some c =>
    refine ⟨lt_of_get? hc, ?_⟩
    rw [hc] at hsome
    cases c with
    | array items => exact (isSome_readAll_iff items).mp (by simpa using hsome)
    | map entries => exact isSome_readEntries_iff.mp (by simpa using hsome)
    | object cls fields => exact isSome_readFields_iff.mp (by simpa using hsome)
    | dynamic v => exact (isSome_readWith_iff v).mp (by simpa using hsome)
    | handle slot =>
      dsimp only at hsome ⊢
      split at hsome
      · rename_i v hv
        rw [payload, hv]
        exact (isSome_readWith_iff v).mp (by simpa using hsome)
      · exact absurd hsome (by simp)

/-! ## Bounds -/

/-- A greater bound gives the same where it gives anything. -/
theorem readCell_succ_of_isSome (hsome : (h.readCell n a).isSome) :
    h.readCell (n + 1) a = h.readCell n a := by
  induction n generalizing a with
  | zero => exact absurd hsome (by simp [readCell])
  | succ n ih =>
    rw [readCell_succ] at hsome
    have hinner := (isSome_of_readStep hsome).2
    rw [readCell_succ h (n + 1), readCell_succ h n]
    exact readStep_congr rfl (fun _ _ => rfl) fun b hb => ih (hinner b hb)

theorem readCell_eq_none (hnone : h.readCell (n + 1) a = none) : h.readCell n a = none := by
  cases hread : h.readCell n a with
  | none => rfl
  | some d =>
    have hsame := readCell_succ_of_isSome (h := h) (n := n) (a := a) (hread ▸ rfl)
    exact absurd (hsame.symm.trans hnone) (by simp [hread])

/-- A greater bound gives nothing more. -/
def Settled (h : Heap) (n : Nat) : Prop := ∀ a, h.readCell (n + 1) a = h.readCell n a

theorem Settled.readCell (hsettled : h.Settled n) (hle : n ≤ m) (a : Addr) :
    h.readCell m a = h.readCell n a := by
  induction hle generalizing a with
  | refl => rfl
  | @step m _ ih =>
    rw [readCell_succ, ← hsettled a, readCell_succ]
    exact readStep_congr rfl (fun _ _ => rfl) fun b _ => ih b

/-- The addresses of which nothing is read within a bound. -/
def unread (h : Heap) (n : Nat) : List Addr :=
  (List.range h.size).filter fun a => (h.readCell n a).isNone

/-- Where a greater bound gives more, it leaves fewer addresses. -/
theorem unread_lt (hnot : ¬ h.Settled n) : (h.unread (n + 1)).length < (h.unread n).length := by
  have hfilter : h.unread (n + 1) =
      (h.unread n).filter fun a => (h.readCell (n + 1) a).isNone := by
    rw [unread, unread, List.filter_filter]
    refine List.filter_congr fun a _ => ?_
    cases ha : h.readCell (n + 1) a with
    | none => simp [readCell_eq_none ha]
    | some d => simp
  obtain ⟨a, ha⟩ := Classical.not_forall.mp hnot
  have hunread : h.readCell n a = none := by
    cases hread : h.readCell n a with
    | none => rfl
    | some d => exact absurd (readCell_succ_of_isSome (hread ▸ rfl)) ha
  have hread : (h.readCell (n + 1) a).isSome := by
    rw [hunread] at ha
    exact Option.isSome_iff_ne_none.mpr ha
  have hlt : a < h.size := (isSome_of_readStep hread).1
  rw [hfilter, List.length_filter_lt_length_iff_exists]
  refine ⟨a, ?_, ?_⟩
  · rw [unread, List.mem_filter, List.mem_range, hunread]
    exact ⟨hlt, rfl⟩
  · simpa using Option.isSome_iff_ne_none.mp hread

/-- Until nothing more is read, each greater bound leaves fewer addresses. -/
theorem settled_or_unread_le (n : Nat) :
    (∃ m, m < n ∧ h.Settled m) ∨ (h.unread n).length + n ≤ h.size := by
  induction n with
  | zero =>
    refine .inr ?_
    have hle : (h.unread 0).length ≤ (List.range h.size).length := List.length_filter_le _ _
    simpa using hle
  | succ n ih =>
    rcases ih with ⟨m, hm, hsettled⟩ | hle
    · exact .inl ⟨m, Nat.lt_succ_of_lt hm, hsettled⟩
    · by_cases hsettled : h.Settled n
      · exact .inl ⟨n, Nat.lt_succ_self n, hsettled⟩
      · have hlt := unread_lt hsettled
        exact .inr (by omega)

/-- **As many steps as there are cells suffice.** -/
theorem readCell_of_size_le (hn : h.size ≤ n) (a : Addr) :
    h.readCell n a = h.readCell h.size a := by
  obtain ⟨m, hm, hsettled⟩ : ∃ m, m ≤ h.size ∧ h.Settled m := by
    rcases settled_or_unread_le (h := h) (h.size + 1) with ⟨m, hm, hsettled⟩ | hle
    · exact ⟨m, Nat.le_of_lt_succ hm, hsettled⟩
    · omega
  rw [hsettled.readCell (Nat.le_trans hm hn), hsettled.readCell hm]

/-! ## What reading depends on -/

/-- What is followed is reached from what the cell refers to. -/
theorem reaches_of_mem_followed (hb : b ∈ h.followed a) : Reaches h (h.childrenOf a) b := by
  rw [followed] at hb
  split at hb
  · rename_i slot hslot
    have hchild : slot ∈ h.childrenOf a :=
      mem_childrenOf_iff.mpr ⟨_, hslot, List.mem_singleton_self slot⟩
    exact (Reaches.root hchild).step (mem_childrenOf_of_payload hb)
  · rename_i c _ hc
    exact .root (mem_childrenOf_iff.mpr ⟨c, hc, hb⟩)
  · exact absurd hb List.not_mem_nil

theorem Reaches.followed {roots : List Addr} (ha : Reaches h roots a) (hb : b ∈ h.followed a) :
    Reaches h roots b :=
  (reaches_of_mem_followed hb).trans fun _ hr => ha.step hr

theorem readCell_congr {roots : List Addr}
    (hsame : ∀ b, Reaches h roots b → h'.get? b = h.get? b) (n : Nat) (ha : Reaches h roots a) :
    h'.readCell n a = h.readCell n a := by
  induction n generalizing a with
  | zero => rfl
  | succ n ih =>
    rw [readCell_succ, readCell_succ]
    refine readStep_congr (hsame a ha) (fun slot hslot => ?_) fun b hb => ih (ha.followed hb)
    refine hsame slot (ha.step ?_)
    exact mem_childrenOf_iff.mpr ⟨_, hslot, List.mem_singleton_self slot⟩

/-- **What is read of a value depends on no cell but those that the value reaches.** -/
theorem read?_congr (hle : h.size ≤ h'.size)
    (hsame : ∀ b, Reaches h v.addrs b → h'.get? b = h.get? b) : h'.read? v = h.read? v := by
  rw [Heap.read?, Heap.read?]
  refine readWith_congr v fun a ha => ?_
  rw [readCell_congr hsame _ (.root ha), readCell_of_size_le hle]

/-- What is read of a value does not change when cells are added. -/
theorem Extends.read? (hext : Extends h h') (hclosed : h.Closed) (hv : h.Holds v) :
    h'.read? v = h.read? v :=
  read?_congr hext.size_le fun _ hb => hext.get?_eq _ (hb.lt hclosed hv)

/-! ## Kinds -/

/-- What is read is of the kind of the value. -/
theorem kind_of_read? (hd : h.read? v = some d) : d.kind = h.kindOf v := by
  cases v with
  | scalar s =>
    obtain rfl := Option.some.inj hd
    rfl
  | undefined single m =>
    obtain rfl := Option.some.inj hd
    cases single <;> rfl
  | tuple items =>
    obtain ⟨ds, -, rfl⟩ := Option.map_eq_some_iff.mp hd
    rfl
  | ref a =>
    have hread : h.readCell (h.size + 1) a = some d :=
      (readCell_of_size_le (Nat.le_succ _) a).trans hd
    rw [readCell_succ, readStep] at hread
    rw [kindOf]
    split at hread
    · contradiction
    all_goals
      rename_i hc
      rw [hc]
    · obtain ⟨ds, -, rfl⟩ := Option.map_eq_some_iff.mp hread
      rfl
    · obtain ⟨ds, -, rfl⟩ := Option.map_eq_some_iff.mp hread
      rfl
    · obtain ⟨ds, -, rfl⟩ := Option.map_eq_some_iff.mp hread
      rfl
    · obtain ⟨ds, -, rfl⟩ := Option.map_eq_some_iff.mp hread
      rfl
    · split at hread
      · obtain ⟨ds, -, rfl⟩ := Option.map_eq_some_iff.mp hread
        rfl
      · contradiction

end Heap
end ScriptHost
