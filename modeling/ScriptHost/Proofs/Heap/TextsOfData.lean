import ScriptHost.Proofs.Heap.TextForms
import ScriptHost.Proofs.Value.Debug

/-!
# The texts of values that have a datum

A value that can be read to its end does not come back to itself, so the exact form meets nothing
that it is showing already.  So the texts of the value are those of its datum, unless an integer is
too long for one.

The proof goes by the least bound with which a cell can be read.  Of a cell that is being shown
nothing is read with the bounds that are left inside of it, and a tuple that is being shown refers
to such a cell or is greater than all that is inside of it (`Outside`).

* `Datum.Brief`: no integer that is shown is too long.
* `exact_of_read?`, `plain_of_read?`: the exact and the plain text.
* `Flat.debug_of_read?`, `Flat.display_of_read?`: the debug and the display text.
* `Flat.shownText_of_read?`, `Flat.formText_of_read?`: the text in a message, and all text forms.
* `Flat.read?_eq_of_debug_eq`: debug texts tell values apart, wherever they lie.
-/

namespace ScriptHost

/-! ## Texts of data -/

mutual

/-- No integer that a text of the datum shows is too long; fields of objects are not shown. -/
def Datum.Brief : Datum → Prop
  | .scalar s => s.long = false
  | .array items | .tuple items => Datum.BriefAll items
  | .map entries => Datum.BriefEntries entries
  | .object .. => True
  | .dynamic d | .handle d => d.Brief

def Datum.BriefAll : List Datum → Prop
  | [] => True
  | d :: rest => d.Brief ∧ Datum.BriefAll rest

def Datum.BriefEntries : List (Datum × Datum) → Prop
  | [] => True
  | (key, value) :: rest => key.Brief ∧ value.Brief ∧ Datum.BriefEntries rest

end

namespace Heap

variable {h : Heap} {a b : Addr} {v w : Value} {d : Datum} {places : Precision} {n m : Nat}

/-- A greater bound reads the same of a value, where it reads anything. -/
theorem readWith_of_le (hle : n ≤ m) (hd : readWith (h.readCell n) v = some d) :
    readWith (h.readCell m) v = some d := by
  induction hle with
  | refl => exact hd
  | @step m _ ih =>
    rw [← ih]
    refine readWith_congr v fun a ha => readCell_succ_of_isSome ?_
    exact (isSome_readWith_iff v).mp (ih ▸ rfl) a ha

theorem read?_of_readWith (hd : readWith (h.readCell n) v = some d) : h.read? v = some d := by
  have hgreat := readWith_of_le (Nat.le_max_left n h.size) hd
  rw [read?, ← hgreat]
  exact readWith_congr v fun a _ => (readCell_of_size_le (Nat.le_max_right n h.size) a).symm

theorem isSome_of_readWith {f : Addr → Option Datum} (hd : readWith f v = some d)
    (hb : b ∈ v.addrs) : (f b).isSome :=
  (isSome_readWith_iff v).mp (hd ▸ rfl) b hb

/-! ### The exact form -/

section Exact

variable {g : Addr → Option Datum} {f : List Value → Addr → Shown} {trail : List Value}

theorem exactAll_of_readAll {vs : List Value} {ds : List Datum}
    (hall : ∀ v ∈ vs, ∀ d, readWith g v = some d → d.Brief →
      exactWith f trail v = .ok d.exact)
    (hds : readAll g vs = some ds) (hbrief : Datum.BriefAll ds) :
    exactAll f trail vs = .ok (Datum.exacts ds) := by
  induction vs generalizing ds with
  | nil =>
    obtain rfl := Option.some.inj hds
    rfl
  | cons v rest ih =>
    rw [List.forall_mem_cons] at hall
    rw [readAll] at hds
    obtain ⟨d, hd, hds⟩ := Option.bind_eq_some_iff.mp hds
    obtain ⟨ds', hrest, heq⟩ := Option.bind_eq_some_iff.mp hds
    obtain rfl := Option.some.inj heq
    rw [exactAll, hall.1 d hd hbrief.1, ih hall.2 hrest hbrief.2]
    rfl

theorem exactEntries_of_readEntries {entries : List (Value × Value)} {ds : List (Datum × Datum)}
    (hall : ∀ v ∈ entries.flatMap (fun (k, v) => [k, v]), ∀ d, readWith g v = some d → d.Brief →
      exactWith f trail v = .ok d.exact)
    (hds : readEntries g entries = some ds) (hbrief : Datum.BriefEntries ds) :
    exactEntries f trail entries = .ok (Datum.exactEntries ds) := by
  induction entries generalizing ds with
  | nil =>
    obtain rfl := Option.some.inj hds
    rfl
  | cons entry rest ih =>
    obtain ⟨k, v⟩ := entry
    rw [List.flatMap_cons, List.forall_mem_append, List.forall_mem_cons,
      List.forall_mem_singleton] at hall
    rw [readEntries_cons] at hds
    obtain ⟨key, hkey, hds⟩ := Option.bind_eq_some_iff.mp hds
    obtain ⟨d, hd, hds⟩ := Option.bind_eq_some_iff.mp hds
    obtain ⟨ds', hrest, rfl⟩ := Option.map_eq_some_iff.mp hds
    obtain ⟨hk, hv, hbrief⟩ := hbrief
    rw [exactEntries, hall.1.1 key hkey hk, hall.1.2 d hd hv, ih hall.2 hrest hbrief]
    rfl

theorem exactStep_of_readStep
    (hall : ∀ w ∈ h.shownIn a, ∀ d, readWith g w = some d → d.Brief →
      exactWith f trail w = .ok d.exact)
    (hd : h.readStep g a = some d) (hbrief : d.Brief) :
    h.exactStep f trail a = .ok d.exact := by
  rw [shownIn] at hall
  rw [readStep] at hd
  rw [exactStep]
  cases hc : h.get? a with
  | none => simp [hc] at hd
  | some c =>
    rw [hc] at hall hd
    cases c with
    | array items =>
      obtain ⟨ds, hds, rfl⟩ := Option.map_eq_some_iff.mp hd
      dsimp only
      rw [exactAll_of_readAll hall hds hbrief]
      rfl
    | map entries =>
      obtain ⟨ds, hds, rfl⟩ := Option.map_eq_some_iff.mp hd
      dsimp only
      rw [exactEntries_of_readEntries hall hds hbrief]
      rfl
    | object cls fields =>
      obtain ⟨ds, hds, rfl⟩ := Option.map_eq_some_iff.mp hd
      rfl
    | dynamic v =>
      obtain ⟨d', hread, rfl⟩ := Option.map_eq_some_iff.mp hd
      dsimp only
      rw [hall v (List.mem_singleton_self v) d' hread hbrief]
      rfl
    | handle slot =>
      dsimp only at hd ⊢
      split at hd
      · rename_i v hv
        obtain ⟨d', hread, rfl⟩ := Option.map_eq_some_iff.mp hd
        have hpayload : h.payload slot = v := by rw [payload, hv]
        rw [hpayload, hall v (by simp [hpayload]) d' hread hbrief]
        rfl
      · cases hd

/-- What is on the trail lies outside of a value: it refers to something of which nothing is read
yet, or the value is one of its parts. -/
def Outside (g : Addr → Option Datum) (trail : List Value) (v : Value) : Prop :=
  ∀ x ∈ trail, (∃ b ∈ x.addrs, g b = none) ∨ v.addrs ⊆ x.addrs ∧ sizeOf v < sizeOf x

/-- What can be read is not on the trail. -/
theorem Outside.not_mem (hout : Outside g trail v) (hd : readWith g v = some d) : v ∉ trail := by
  intro hmem
  rcases hout v hmem with ⟨b, hb, hnone⟩ | ⟨-, hlt⟩
  · exact absurd (isSome_of_readWith hd hb) (by simp [hnone])
  · exact Nat.lt_irrefl _ hlt

theorem Outside.item {items : List Value} (hout : Outside g trail (.tuple items)) (hv : v ∈ items) :
    Outside g (.tuple items :: trail) v := by
  have haddrs : v.addrs ⊆ (Value.tuple items).addrs := by
    intro b hb
    rw [Value.addrs_tuple]
    exact Value.mem_addrsAll_iff.mpr ⟨v, hv, hb⟩
  have hsize : sizeOf v < sizeOf (Value.tuple items) := by
    have hlt := List.sizeOf_lt_of_mem hv
    rw [Value.tuple.sizeOf_spec]
    omega
  intro x hx
  rcases List.mem_cons.mp hx with rfl | hx
  · exact .inr ⟨haddrs, hsize⟩
  · rcases hout x hx with hnone | ⟨hsub, hlt⟩
    · exact .inl hnone
    · exact .inr ⟨List.Subset.trans haddrs hsub, Nat.lt_trans hsize hlt⟩

mutual

/-- A value that can be read has the exact text of its datum, if the cells have. -/
theorem exactWith_of_readWith
    (hcell : ∀ t a d, Outside g t (.ref a) → g a = some d → d.Brief → f t a = .ok d.exact) :
    ∀ (v : Value) (t : List Value) (d : Datum), Outside g t v → readWith g v = some d → d.Brief →
      exactWith f t v = .ok d.exact
  | .scalar s, t, d, _, hd, hbrief => by
    obtain rfl := Option.some.inj hd
    have hlong : s.long = false := hbrief
    rw [exactWith, Scalar.limited, hlong]
    rfl
  | .undefined single m, t, d, _, hd, _ => by
    obtain rfl := Option.some.inj hd
    rfl
  | .tuple items, t, d, hout, hd, hbrief => by
    rw [exactWith, if_neg (hout.not_mem hd)]
    obtain ⟨ds, hds, rfl⟩ := Option.map_eq_some_iff.mp hd
    rw [exactAll_of_readAll (exactAll_of_outside hcell items _ fun v hv => hout.item hv) hds hbrief]
    rfl
  | .ref a, t, d, hout, hd, hbrief => hcell t a d hout hd hbrief

theorem exactAll_of_outside
    (hcell : ∀ t a d, Outside g t (.ref a) → g a = some d → d.Brief → f t a = .ok d.exact) :
    ∀ (vs t : List Value), (∀ v ∈ vs, Outside g t v) →
      ∀ v ∈ vs, ∀ d, readWith g v = some d → d.Brief → exactWith f t v = .ok d.exact
  | [], _, _ => nofun
  | v :: rest, t, hall => by
    rw [List.forall_mem_cons] at hall
    rw [List.forall_mem_cons]
    exact ⟨fun d => exactWith_of_readWith hcell v t d hall.1,
      exactAll_of_outside hcell rest t hall.2⟩

end

theorem exactCell_of_readCell (hle : n ≤ m) (hout : Outside (h.readCell n) trail (.ref a))
    (hd : h.readCell n a = some d) (hbrief : d.Brief) :
    follow h.elided h.exactStep m trail a = .ok d.exact := by
  induction n generalizing m trail a d with
  | zero => exact absurd hd nofun
  | succ n ih =>
    cases hread : h.readCell n a with
    | some d' =>
      -- a smaller bound reads the same
      have hsame := readCell_succ_of_isSome (h := h) (n := n) (a := a) (hread ▸ rfl)
      refine ih (Nat.le_of_succ_le hle) (fun x hx => ?_) (hsame ▸ hd) hbrief
      rcases hout x hx with ⟨b, hb, hnone⟩ | hpart
      · exact .inl ⟨b, hb, readCell_eq_none hnone⟩
      · exact .inr hpart
    | none =>
      obtain ⟨m, rfl⟩ : ∃ k, m = k + 1 := ⟨m - 1, by omega⟩
      rw [follow_of_not_mem (hout.not_mem (v := .ref a) hd)]
      refine exactStep_of_readStep (fun w _ d' hw hbrief' => ?_) hd hbrief
      refine exactWith_of_readWith (fun t b d hout hd hbrief => ?_) w _ d' (fun x hx => ?_) hw
        hbrief'
      · exact ih (Nat.le_of_succ_le_succ hle) hout hd hbrief
      · -- each part of the trail refers to this cell, and nothing of it is read with this bound
        rcases List.mem_cons.mp hx with rfl | hx
        · exact .inl ⟨a, by simp, hread⟩
        · rcases hout x hx with ⟨b, hb, hnone⟩ | ⟨hsub, -⟩
          · exact .inl ⟨b, hb, readCell_eq_none hnone⟩
          · exact .inl ⟨a, hsub (by simp), hread⟩

end Exact

/-- **A value has the exact text of its datum.** -/
theorem exact_of_read? (hd : h.read? v = some d) (hbrief : d.Brief) : h.exact v = .ok d.exact := by
  refine exactWith_of_readWith (fun t a d hout hd hbrief => ?_) v [] d nofun hd hbrief
  exact exactCell_of_readCell (Nat.le_succ _) hout hd hbrief

/-- What is read of a cell is no scalar. -/
theorem ne_scalar_of_readStep {g : Addr → Option Datum} (hd : h.readStep g a = some d)
    (s : Scalar) : d ≠ .scalar s := by
  rintro rfl
  rw [readStep] at hd
  split at hd
  case h_1 => cases hd
  case h_6 =>
    split at hd
    · obtain ⟨_, -, heq⟩ := Option.map_eq_some_iff.mp hd
      cases heq
    · cases hd
  all_goals
    obtain ⟨_, -, heq⟩ := Option.map_eq_some_iff.mp hd
    cases heq

theorem ne_scalar_of_read? (hd : h.read? (.ref a) = some d) (s : Scalar) : d ≠ .scalar s :=
  ne_scalar_of_readStep (g := h.readCell h.size)
    ((readCell_of_size_le (Nat.le_succ _) a).trans hd) s

theorem plain_of_read? (hd : h.read? v = some d) (hbrief : d.Brief) : h.plain v = .ok d.plain := by
  cases v with
  | scalar s =>
    obtain rfl := Option.some.inj hd
    have hlong : s.long = false := hbrief
    rw [plain, Scalar.limited, hlong]
    rfl
  | undefined single m =>
    obtain rfl := Option.some.inj hd
    rfl
  | tuple items =>
    obtain ⟨ds, -, rfl⟩ := Option.map_eq_some_iff.mp hd
    exact exact_of_read? hd hbrief
  | ref a =>
    have hplain : d.plain = d.exact := by
      cases d with
      | scalar s => exact absurd rfl (ne_scalar_of_read? hd s)
      | _ => rfl
    rw [hplain]
    exact exact_of_read? hd hbrief

/-! ### The debug form -/

section Debug

variable {inner : Addr → Shown} {trail : List Value}

theorem map_eq_bind {α β : Type} (x : Except ConvertError α) (f : α → β) :
    x.map f = x >>= fun y => .ok (f y) := by
  cases x <;> rfl

theorem debugWith_of_kindOf_ne (hk : h.kindOf v ≠ .dynamic)
    (hcell : ∀ b d, h.readCell n b = some d → h.kindOf (.ref b) ≠ .dynamic → d.Brief →
      inner b = d.debug)
    (hd : readWith (h.readCell n) v = some d) (hbrief : d.Brief) :
    h.debugWith inner v = d.debug := by
  rw [debugWith, unwrap_of_kindOf_ne hk]
  cases v with
  | scalar s =>
    obtain rfl := Option.some.inj hd
    have hlong : s.long = false := hbrief
    dsimp only
    rw [Scalar.limited, hlong]
    rfl
  | undefined single m =>
    obtain rfl := Option.some.inj hd
    rfl
  | tuple items =>
    obtain ⟨ds, -, rfl⟩ := Option.map_eq_some_iff.mp hd
    exact exact_of_read? (read?_of_readWith hd) hbrief
  | ref b => exact hcell b d hd hk hbrief

/-- What a container is read as. -/
theorem exists_of_readWith_dynamic (hk : h.kindOf v = .dynamic)
    (hd : readWith (h.readCell n) v = some d) :
    ∃ d', d = .dynamic d' ∧ readWith (h.readCell n) (h.unwrap v) = some d' := by
  obtain ⟨a, ha⟩ := kindOf_eq_dynamic_iff.mp hk
  obtain ⟨rfl, w, hw⟩ := dynamic?_eq_some_iff.mp ha
  have hunwrap : h.unwrap (.ref a) = w := by rw [unwrap_of_dynamic hw, payload, hw]
  cases n with
  | zero => cases hd
  | succ n =>
    have hstep : h.readStep (h.readCell n) a = some d := hd
    rw [readStep, hw] at hstep
    obtain ⟨d', hread, rfl⟩ := Option.map_eq_some_iff.mp hstep
    exact ⟨d', rfl, hunwrap ▸ readWith_of_le (Nat.le_succ n) hread⟩

/-- A value that can be read has the debug text of its datum, if the cells have. -/
theorem Flat.debugWith_of_readWith (hflat : h.Flat)
    (hcell : ∀ b d, h.readCell n b = some d → h.kindOf (.ref b) ≠ .dynamic → d.Brief →
      inner b = d.debug)
    (hd : readWith (h.readCell n) v = some d) (hbrief : d.Brief) :
    h.debugWith inner v = d.debug := by
  by_cases hk : h.kindOf v = .dynamic
  · obtain ⟨d', rfl, hd'⟩ := exists_of_readWith_dynamic hk hd
    have hne := hflat.kindOf_unwrap v
    have hsame : h.debugWith inner v = h.debugWith inner (h.unwrap v) := by
      rw [debugWith, debugWith, unwrap_of_kindOf_ne hne]
    rw [hsame, debugWith_of_kindOf_ne hne hcell hd' hbrief, Datum.debug]
  · exact debugWith_of_kindOf_ne hk hcell hd hbrief

theorem debugAll_of_readAll {g : Addr → Option Datum} {vs : List Value} {ds : List Datum}
    (hall : ∀ v d, readWith g v = some d → d.Brief → h.debugWith inner v = d.debug)
    (hds : readAll g vs = some ds) (hbrief : Datum.BriefAll ds) :
    h.debugAll inner vs = Datum.debugs ds := by
  induction vs generalizing ds with
  | nil =>
    obtain rfl := Option.some.inj hds
    rfl
  | cons v rest ih =>
    rw [readAll] at hds
    obtain ⟨d, hd, hds⟩ := Option.bind_eq_some_iff.mp hds
    obtain ⟨ds', hrest, heq⟩ := Option.bind_eq_some_iff.mp hds
    obtain rfl := Option.some.inj heq
    rw [debugAll, hall v d hd hbrief.1, ih hrest hbrief.2, Datum.debugs]

theorem debugEntries_of_readEntries {g : Addr → Option Datum} {entries : List (Value × Value)}
    {ds : List (Datum × Datum)}
    (hkeys : ∀ v d, readWith g v = some d → d.Brief → h.plain v = .ok d.plain)
    (hall : ∀ v d, readWith g v = some d → d.Brief → h.debugWith inner v = d.debug)
    (hds : readEntries g entries = some ds) (hbrief : Datum.BriefEntries ds) :
    h.debugEntries inner entries = Datum.debugEntries ds := by
  induction entries generalizing ds with
  | nil =>
    obtain rfl := Option.some.inj hds
    rfl
  | cons entry rest ih =>
    obtain ⟨k, v⟩ := entry
    rw [readEntries_cons] at hds
    obtain ⟨key, hkey, hds⟩ := Option.bind_eq_some_iff.mp hds
    obtain ⟨d, hd, hds⟩ := Option.bind_eq_some_iff.mp hds
    obtain ⟨ds', hrest, rfl⟩ := Option.map_eq_some_iff.mp hds
    obtain ⟨hk, hv, hbrief⟩ := hbrief
    rw [debugEntries, hkeys k key hkey hk, hall v d hd hv, ih hrest hbrief, Datum.debugEntries]
    rfl

theorem debugStep_of_readStep (hk : h.kindOf (.ref a) ≠ .dynamic)
    (hall : ∀ v d, readWith (h.readCell n) v = some d → d.Brief → h.debugWith inner v = d.debug)
    (hd : h.readStep (h.readCell n) a = some d) (hbrief : d.Brief) :
    h.debugStep inner a = d.debug := by
  have hread : h.read? (.ref a) = some d := read?_of_readWith (n := n + 1) hd
  rw [readStep] at hd
  rw [debugStep]
  cases hc : h.get? a with
  | none => simp [hc] at hd
  | some c =>
    rw [hc] at hd
    cases c with
    | array items =>
      obtain ⟨ds, hds, rfl⟩ := Option.map_eq_some_iff.mp hd
      dsimp only
      rw [debugAll_of_readAll hall hds hbrief, Datum.debug, map_eq_bind]
    | map entries =>
      obtain ⟨ds, hds, rfl⟩ := Option.map_eq_some_iff.mp hd
      have hkeys : ∀ v d, readWith (h.readCell n) v = some d → d.Brief → h.plain v = .ok d.plain :=
        fun v d hd hbrief => plain_of_read? (read?_of_readWith hd) hbrief
      dsimp only
      rw [debugEntries_of_readEntries hkeys hall hds hbrief, Datum.debug, map_eq_bind]
    | dynamic v => exact absurd (kindOf_ref hc) hk
    | object cls fields =>
      obtain ⟨ds, -, rfl⟩ := Option.map_eq_some_iff.mp hd
      exact exact_of_read? hread hbrief
    | handle slot =>
      have hkind : d.kind = .handle := (kind_of_read? hread).trans (kindOf_ref hc)
      dsimp only
      rw [exact_of_read? hread hbrief]
      cases d with
      | handle d => rfl
      | scalar s => exact absurd rfl (ne_scalar_of_read? hread s)
      | _ => cases hkind

theorem Flat.debugCell_of_readCell (hflat : h.Flat) (hle : n ≤ m)
    (htrail : ∀ b, .ref b ∈ trail → h.readCell n b = none) (hk : h.kindOf (.ref a) ≠ .dynamic)
    (hd : h.readCell n a = some d) (hbrief : d.Brief) :
    follow (fun _ => .error .tooDeep) (fun inner trail => h.debugStep (inner trail)) m trail a =
      d.debug := by
  induction n generalizing m trail a d with
  | zero => exact absurd hd nofun
  | succ n ih =>
    cases hread : h.readCell n a with
    | some d' =>
      -- a smaller bound reads the same
      have hsame := readCell_succ_of_isSome (h := h) (n := n) (a := a) (hread ▸ rfl)
      exact ih (Nat.le_of_succ_le hle) (fun b hb => readCell_eq_none (htrail b hb)) hk
        (hsame ▸ hd) hbrief
    | none =>
      obtain ⟨m, rfl⟩ : ∃ k, m = k + 1 := ⟨m - 1, by omega⟩
      have hnew : .ref a ∉ trail := fun hmem => by
        rw [htrail a hmem] at hd
        exact absurd hd nofun
      rw [follow_of_not_mem hnew]
      refine debugStep_of_readStep hk (fun v d' hv hbrief' => ?_) hd hbrief
      refine hflat.debugWith_of_readWith (fun b d hd hk hbrief => ?_) hv hbrief'
      refine ih (Nat.le_of_succ_le_succ hle) (fun c hc => ?_) hk hd hbrief
      rcases List.mem_cons.mp hc with heq | hc
      · exact Value.ref.inj heq ▸ hread
      · exact readCell_eq_none (htrail c hc)

end Debug

/-- **A value has the debug text of its datum.** -/
theorem Flat.debug_of_read? (hflat : h.Flat) (hd : h.read? v = some d) (hbrief : d.Brief) :
    h.debug v = d.debug := by
  refine hflat.debugWith_of_readWith (fun b d hd hk hbrief => ?_) hd hbrief
  exact hflat.debugCell_of_readCell (Nat.le_succ _) nofun hk hd hbrief

/-- **Values with one debug text are read alike**, whatever cells they are made of. -/
theorem Flat.read?_eq_of_debug_eq (hflat : h.Flat) {e : Datum} (hd : h.read? v = some d)
    (he : h.read? w = some e) (hreadable : d.Readable ∧ e.Readable) (hbrief : d.Brief ∧ e.Brief)
    (heq : h.debug v = h.debug w) : h.read? v = h.read? w := by
  rw [hflat.debug_of_read? hd hbrief.1, hflat.debug_of_read? he hbrief.2] at heq
  rw [hd, he, hreadable.1.eq_of_debug hreadable.2 heq]

/-! ### The display form -/

theorem Flat.debugMap_of_read? (hflat : h.Flat) (hd : h.read? v = some d) (hbrief : d.Brief) :
    h.debugMap v = d.debugMap := by
  rw [debugMap, hflat.debug_of_read? hd hbrief, Datum.debugMap, map_eq_bind]

theorem Flat.display_of_kindOf_ne (hflat : h.Flat) (hk : h.kindOf v ≠ .dynamic)
    (hd : h.read? v = some d) (hbrief : d.Brief) : h.display places v = d.display places := by
  have hkind := kind_of_read? hd
  have hplain := plain_of_read? hd hbrief
  rw [display, unwrap_of_kindOf_ne hk]
  cases v with
  | scalar s =>
    obtain rfl := Option.some.inj hd
    have hlong : s.long = false := hbrief
    dsimp only
    rw [Scalar.limited, hlong]
    rfl
  | undefined single m =>
    obtain rfl := Option.some.inj hd
    rfl
  | tuple items =>
    obtain ⟨ds, -, rfl⟩ := Option.map_eq_some_iff.mp hd
    exact hplain
  | ref a =>
    dsimp only
    rw [← hkind]
    cases d with
    | scalar s => exact absurd rfl (ne_scalar_of_read? hd s)
    | array items => exact hflat.debug_of_read? hd hbrief
    | map entries => exact hflat.debugMap_of_read? hd hbrief
    | dynamic d => exact absurd hkind.symm hk
    | _ => exact hplain

/-- **A value has the display text of its datum.** -/
theorem Flat.display_of_read? (hflat : h.Flat) (hd : h.read? v = some d) (hbrief : d.Brief) :
    h.display places v = d.display places := by
  by_cases hk : h.kindOf v = .dynamic
  · obtain ⟨d', rfl, hd'⟩ := exists_of_readWith_dynamic hk hd
    have hne := hflat.kindOf_unwrap v
    have hsame : h.display places v = h.display places (h.unwrap v) := by
      rw [display, display, unwrap_of_kindOf_ne hne]
    rw [hsame, hflat.display_of_kindOf_ne hne hd' hbrief, Datum.display]
  · exact hflat.display_of_kindOf_ne hk hd hbrief

/-- In a message a value is shown as its datum is. -/
theorem Flat.shownText_of_read? (hflat : h.Flat) (hd : h.read? v = some d) (hbrief : d.Brief) :
    h.shownText places v = (d.shown places).map String.ofList := by
  have hkind := kind_of_read? hd
  rw [shownText, shown]
  split
  · rename_i hk
    rw [hflat.display_of_read? hd hbrief]
    cases d with
    | dynamic d => rfl
    | scalar s => exact absurd (hkind.trans hk) (scalar_kind_ne s)
    | _ => cases hkind.trans hk
  · rename_i hk
    rw [plain_of_read? hd hbrief]
    cases d with
    | dynamic d => exact absurd hkind.symm hk
    | _ => rfl

/-- **All text forms of a value are those of its datum.** -/
theorem Flat.formText_of_read? (hflat : h.Flat) (hd : h.read? v = some d) (hbrief : d.Brief)
    (form : TextForm) :
    h.formText places form v = (match form with
      | .display => d.display places
      | .debug => d.debug
      | .markedDebug => d.debugMap
      | .exact => .ok d.exact).map String.ofList := by
  cases form with
  | display => rw [formText, hflat.display_of_read? hd hbrief]
  | debug => rw [formText, hflat.debug_of_read? hd hbrief]
  | markedDebug => rw [formText, hflat.debugMap_of_read? hd hbrief]
  | exact => rw [formText, exact_of_read? hd hbrief]

end Heap
end ScriptHost
