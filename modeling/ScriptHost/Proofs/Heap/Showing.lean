import ScriptHost.Proofs.Heap.Following
import ScriptHost.Proofs.Heap.Reachability

/-!
# Which values have texts

A text form fails for one of three reasons: an integer is too long, a number cannot be shown, or the
form goes on for ever.  The exact form shows everything that is in a value, but for the fields of
objects, and comes back to arrays, maps and tuples without harm; it goes on for ever only through
containers and handles that enclose themselves.  The debug form goes on for ever wherever what it
lays out leads back.

That a failure shows up is plain for the debug form, which meets each cell as often as it is led
there.  The exact form passes over what it is showing already.  But what it passes over it is just
showing, so all that can be shown has been shown somewhere (`Visits`).

* `Shows`, `Encloses`, `Showable`, `isOk_exact_iff`: when there is an exact text.
* `LeadsTo`, `Legible`, `Debuggable`, `isOk_debug_iff`: when there is a debug text.
* `Displayable`, `isOk_display_iff`: when there is a display text.
-/

namespace ScriptHost
namespace Heap

open Relation

variable {h : Heap} {f : List Value → Addr → Shown} {trail : List Value} {places : Precision}
  {a b : Addr} {v w : Value} {n : Nat}

/-! ## Inside of values -/

/-- The values that the exact text of a cell shows. -/
def shownIn (h : Heap) (a : Addr) : List Value :=
  match h.get? a with
  | some (.array items) => items
  | some (.map entries) => entries.flatMap fun (k, v) => [k, v]
  | some (.dynamic v) => [v]
  | some (.handle slot) => [h.payload slot]
  | _ => []

/-- The values that the exact text of a value shows next. -/
def inside (h : Heap) : Value → List Value
  | .tuple items => items
  | .ref a => h.shownIn a
  | _ => []

/-- The exact text of `v` shows `w`. -/
def Shows (h : Heap) : Value → Value → Prop := ReflTransGen fun v w => w ∈ h.inside v

/-- The cell at `a` is a container or a handle, and its payload is the cell at `b`. -/
def Encloses (h : Heap) (a b : Addr) : Prop :=
  h.get? a = some (.dynamic (.ref b)) ∨
    ∃ slot, h.get? a = some (.handle slot) ∧ h.payload slot = .ref b

/-- What the exact text of a value needs. -/
structure Showable (h : Heap) (v : Value) : Prop where
  /-- No integer that is shown is too long. -/
  short : ∀ s, h.Shows v (.scalar s) → s.long = false
  /-- No container and no handle that is shown encloses itself. -/
  ends : ∀ a, h.Shows v (.ref a) → ¬ TransGen h.Encloses a a

theorem Showable.of_mem (hv : h.Showable v) (hw : w ∈ h.inside v) : h.Showable w where
  short s hs := hv.short s (.head hw hs)
  ends a ha := hv.ends a (.head hw ha)

theorem lt_of_mem_shownIn (hw : w ∈ h.shownIn a) : a < h.size := by
  by_contra hlt
  have hnone : h.get? a = none := Array.getElem?_eq_none (Nat.le_of_not_lt hlt)
  rw [shownIn, hnone] at hw
  exact absurd hw List.not_mem_nil

/-- What a container or a handle encloses is shown inside of it. -/
theorem Encloses.mem_shownIn (hab : h.Encloses a b) : .ref b ∈ h.shownIn a := by
  rcases hab with ha | ⟨slot, ha, hb⟩
  · simp [shownIn, ha]
  · simp [shownIn, ha, hb]

theorem Encloses.lt (hab : h.Encloses a b) : a < h.size := lt_of_mem_shownIn hab.mem_shownIn

theorem shows_of_encloses (hab : ReflTransGen h.Encloses a b) : h.Shows (.ref a) (.ref b) := by
  induction hab with
  | refl => exact .refl
  | tail _ hbc ih => exact ih.tail hbc.mem_shownIn

/-! ## Coming back -/

theorem asks_elided :
    Asks (fun inner trail => h.elidedStep (inner trail)) (fun _ => True) h.Encloses := by
  intro f t a
  have hwith (v : Value) : (elidedWith (f t) v).isOk = true ↔
      ∀ b, v = .ref b → (f t b).isOk = true := by
    cases v <;> simp [elidedWith, Except.toBool]
  simp only [elidedStep, Encloses, true_and]
  cases hc : h.get? a with
  | none => simp [Except.toBool]
  | some c =>
    cases c with
    | dynamic v => simp [isOk_map, hwith]
    | handle slot => simp [isOk_map, hwith]
    | _ => simp [Except.toBool]

/-- Where a text comes back it goes on, unless the cell goes on for ever. -/
theorem isOk_elided_iff :
    (h.elided a).isOk = true ↔ ∀ b, ReflTransGen h.Encloses a b → ¬ TransGen h.Encloses b b := by
  rw [elided, isOk_follow_iff asks_elided (fun _ _ hab => hab.lt) (Nat.lt_succ_self _)]
  simp

/-! ## Steps of the exact form -/

theorem isOk_exactAll_iff {vs : List Value} :
    (exactAll f trail vs).isOk = true ↔ ∀ v ∈ vs, (exactWith f trail v).isOk = true := by
  induction vs with
  | nil => exact ⟨fun _ => nofun, fun _ => rfl⟩
  | cons v rest ih => rw [exactAll, isOk_bind₂, ih, List.forall_mem_cons]

theorem isOk_exactEntries_iff {entries : List (Value × Value)} :
    (exactEntries f trail entries).isOk = true ↔
      ∀ v ∈ entries.flatMap (fun (k, v) => [k, v]), (exactWith f trail v).isOk = true := by
  induction entries with
  | nil => exact ⟨fun _ => nofun, fun _ => rfl⟩
  | cons entry rest ih =>
    obtain ⟨k, v⟩ := entry
    rw [exactEntries, isOk_bind fun _ => isOk_bind₂, ih, List.flatMap_cons,
      List.forall_mem_append, List.forall_mem_cons, List.forall_mem_singleton, and_assoc]

/-- A cell has an exact text if everything has one that is shown in it. -/
theorem isOk_exactStep_iff :
    (h.exactStep f trail a).isOk = true ↔
      ∀ w ∈ h.shownIn a, (exactWith f trail w).isOk = true := by
  rw [exactStep, shownIn]
  cases h.get? a with
  | none => simp [Except.toBool]
  | some c =>
    cases c with
    | array items => simp only [isOk_map]; exact isOk_exactAll_iff
    | map entries => simp only [isOk_map]; exact isOk_exactEntries_iff
    | object cls fields => simp [Except.toBool]
    | dynamic v => simp [isOk_map]
    | handle slot => simp [isOk_map]

theorem isOk_limited_iff {s : Scalar} {text : Shown} :
    (s.limited text).isOk = true ↔ s.long = false ∧ text.isOk = true := by
  rw [Scalar.limited]
  cases s.long <;> simp [Except.toBool]

/-! ## What an exact text needs -/

/-- The values that the exact form comes by on its way through `v`, with the bound and the trail
that it has there. -/
inductive Visits (h : Heap) (v : Value) : Nat → List Value → Value → Prop
  | root : Visits h v (h.size + 1) [] v
  | item {n : Nat} {trail items : List Value} {w : Value}
      (htuple : Visits h v n trail (.tuple items)) (hnew : .tuple items ∉ trail) (hw : w ∈ items) :
      Visits h v n (.tuple items :: trail) w
  | cell {n : Nat} {trail : List Value} {a : Addr} {w : Value}
      (hcell : Visits h v (n + 1) trail (.ref a)) (hnew : .ref a ∉ trail) (hw : w ∈ h.shownIn a) :
      Visits h v n (.ref a :: trail) w

namespace Visits

/-- What is on the trail has been come by. -/
theorem of_mem (hvisits : h.Visits v n trail w) {x : Value} (hx : x ∈ trail) :
    ∃ m t, h.Visits v m t x ∧ x ∉ t := by
  induction hvisits with
  | root => exact absurd hx List.not_mem_nil
  | item htuple hnew _ ih =>
    rcases List.mem_cons.mp hx with rfl | hx
    · exact ⟨_, _, htuple, hnew⟩
    · exact ih hx
  | cell hcell hnew _ ih =>
    rcases List.mem_cons.mp hx with rfl | hx
    · exact ⟨_, _, hcell, hnew⟩
    · exact ih hx

/-- If there is a text, then there is one wherever the form comes by. -/
theorem isOk (hvisits : h.Visits v n trail w) (hok : (h.exact v).isOk = true) :
    (exactWith (follow h.elided h.exactStep n) trail w).isOk = true := by
  induction hvisits with
  | root => exact hok
  | item _ hnew hw ih =>
    rw [exactWith, if_neg hnew, isOk_map, isOk_exactAll_iff] at ih
    exact ih _ hw
  | cell _ hnew hw ih =>
    rw [exactWith, follow_of_not_mem hnew, isOk_exactStep_iff] at ih
    exact ih _ hw

/-- What is inside of a value that the form has come by, it has come by as well. -/
theorem exists_of_mem_inside (hvisits : h.Visits v n trail w) (hok : (h.exact v).isOk = true)
    (hnew : w ∉ trail) {x : Value} (hx : x ∈ h.inside w) : ∃ m t, h.Visits v m t x ∧ x ∉ t := by
  -- it is on the trail that leads there, or new to it
  have hstep {m : Nat} (hnext : h.Visits v m (w :: trail) x) : ∃ m t, h.Visits v m t x ∧ x ∉ t := by
    by_cases hmem : x ∈ w :: trail
    · exact hnext.of_mem hmem
    · exact ⟨_, _, hnext, hmem⟩
  cases w with
  | scalar s => exact absurd hx List.not_mem_nil
  | undefined single m => exact absurd hx List.not_mem_nil
  | tuple items => exact hstep (hvisits.item hnew hx)
  | ref a =>
    cases n with
    | zero => exact absurd (hvisits.isOk hok) nofun
    | succ n => exact hstep (hvisits.cell hnew hx)

/-- **All that can be shown is come by.** -/
theorem of_shows (hok : (h.exact v).isOk = true) (hw : h.Shows v w) :
    ∃ m t, h.Visits v m t w ∧ w ∉ t := by
  induction hw with
  | refl => exact ⟨_, _, .root, List.not_mem_nil⟩
  | tail _ hx ih =>
    obtain ⟨m, t, hvisits, hnew⟩ := ih
    exact hvisits.exists_of_mem_inside hok hnew hx

end Visits

/-- No cell with a text encloses itself: its text would have to come before itself. -/
theorem not_encloses_of_isOk (hok : (follow h.elided h.exactStep n trail a).isOk = true) :
    ¬ TransGen h.Encloses a a := by
  induction n generalizing trail a with
  | zero => exact absurd hok nofun
  | succ n ih =>
    intro hcycle
    by_cases hmem : .ref a ∈ trail
    · rw [follow_of_mem hmem] at hok
      exact isOk_elided_iff.mp hok a .refl hcycle
    · rw [follow_of_not_mem hmem, isOk_exactStep_iff] at hok
      obtain ⟨b, hab, hba⟩ := TransGen.head'_iff.mp hcycle
      exact ih (hok _ hab.mem_shownIn) (TransGen.tail' hba hab)

theorem showable_of_isOk (hok : (h.exact v).isOk = true) : h.Showable v where
  short s hs := by
    obtain ⟨m, t, hvisits, -⟩ := Visits.of_shows hok hs
    exact (isOk_limited_iff.mp (hvisits.isOk hok)).1
  ends a ha := by
    obtain ⟨m, t, hvisits, -⟩ := Visits.of_shows hok ha
    exact not_encloses_of_isOk (hvisits.isOk hok)

/-! ## What is enough for an exact text -/

mutual

/-- A value has a text if all cells that it leads to have one. -/
theorem isOk_exactWith {bound n : Nat}
    (hcell : ∀ t a, remaining bound t < n → h.Showable (.ref a) → (f t a).isOk = true) :
    ∀ (v : Value) (t : List Value), remaining bound t < n → h.Showable v →
      (exactWith f t v).isOk = true
  | .scalar s, t, _, hv => isOk_limited_iff.mpr ⟨hv.short s .refl, rfl⟩
  | .undefined single m, t, _, _ => rfl
  | .tuple items, t, hn, hv => by
    rw [exactWith]
    split
    · rfl
    · rw [isOk_map]
      refine isOk_exactAll hcell items _ (Nat.lt_of_le_of_lt (remaining_le ?_) hn) fun w hw => ?_
      · exact List.subset_cons_self _ _
      · exact hv.of_mem hw
  | .ref a, t, hn, hv => hcell t a hn hv

theorem isOk_exactAll {bound n : Nat}
    (hcell : ∀ t a, remaining bound t < n → h.Showable (.ref a) → (f t a).isOk = true) :
    ∀ (vs : List Value) (t : List Value), remaining bound t < n → (∀ v ∈ vs, h.Showable v) →
      (exactAll f t vs).isOk = true
  | [], t, _, _ => rfl
  | v :: rest, t, hn, hall => by
    rw [List.forall_mem_cons] at hall
    rw [isOk_exactAll_iff, List.forall_mem_cons, ← isOk_exactAll_iff]
    exact ⟨isOk_exactWith hcell v t hn hall.1, isOk_exactAll hcell rest t hn hall.2⟩

end

theorem isOk_exactCell (hn : remaining h.size trail < n) (ha : h.Showable (.ref a)) :
    (follow h.elided h.exactStep n trail a).isOk = true := by
  induction n generalizing trail a with
  | zero => exact absurd hn (Nat.not_lt_zero _)
  | succ n ih =>
    by_cases hmem : .ref a ∈ trail
    · rw [follow_of_mem hmem]
      exact isOk_elided_iff.mpr fun b hb => ha.ends b (shows_of_encloses hb)
    · rw [follow_of_not_mem hmem, isOk_exactStep_iff]
      intro w hw
      have hleft : remaining h.size (.ref a :: trail) < n :=
        remaining_lt_pred (lt_of_mem_shownIn hw) hmem (List.Subset.refl _) hn
      exact isOk_exactWith (fun t b ht hb => ih ht hb) w _ hleft (ha.of_mem hw)

/-- **There is an exact text just if no integer is too long and nothing encloses itself.** -/
theorem isOk_exact_iff : (h.exact v).isOk = true ↔ h.Showable v := by
  refine ⟨showable_of_isOk, fun hv => ?_⟩
  have hn : remaining h.size [] < h.size + 1 := by rw [remaining_nil]; exact Nat.lt_succ_self _
  exact isOk_exactWith (fun t a ht ha => isOk_exactCell ht ha) v [] hn hv

/-- An array that contains itself has a text, and a container whose handle it holds has none. -/
example : exactText ⟨#[.array [.ref 0]], 0⟩ (.ref 0) = .ok "[[...]]" ∧
    exactText ⟨#[.dynamic (.ref 1), .handle 0], 0⟩ (.ref 0) = .error .tooDeep :=
  ⟨rfl, rfl⟩

/-! ## The plain form -/

theorem isOk_plain_iff : (h.plain v).isOk = true ↔ h.Showable v := by
  rw [← isOk_exact_iff]
  cases v with
  | scalar s => rw [plain, exact, exactWith, isOk_limited_iff, isOk_limited_iff]; rfl
  | undefined single m => exact ⟨fun _ => rfl, fun _ => rfl⟩
  | _ => rfl

/-! ## The debug form -/

/-- The values that the debug text of a cell lays out. -/
def laidIn (h : Heap) (a : Addr) : List Value :=
  match h.get? a with
  | some (.array items) => items
  | some (.map entries) => entries.map (·.2)
  | _ => []

/-- The debug text of the cell at `a` goes on with that of the cell at `b`. -/
def LeadsTo (h : Heap) (a b : Addr) : Prop := ∃ v ∈ h.laidIn a, h.unwrap v = .ref b

/-- What the debug text of a value needs, cells apart. -/
def Legible (h : Heap) (v : Value) : Prop :=
  match h.unwrap v with
  | .scalar s => s.long = false ∧ s.debug.isOk = true
  | .undefined .. | .ref _ => True
  | .tuple items => h.Showable (.tuple items)

/-- What the debug text of a cell needs, apart from the cells that it leads to. -/
def LegibleCell (h : Heap) (a : Addr) : Prop :=
  match h.get? a with
  | some (.array items) => ∀ v ∈ items, h.Legible v
  | some (.map entries) => ∀ entry ∈ entries, h.Showable entry.1 ∧ h.Legible entry.2
  | _ => h.Showable (.ref a)

/-- What the debug text of a value needs. -/
structure Debuggable (h : Heap) (v : Value) : Prop where
  legible : h.Legible v
  /-- All cells that are laid out are in order … -/
  cells : ∀ a b, h.unwrap v = .ref a → ReflTransGen h.LeadsTo a b → h.LegibleCell b
  /-- … and none of them leads back to itself. -/
  ends : ∀ a b, h.unwrap v = .ref a → ReflTransGen h.LeadsTo a b → ¬ TransGen h.LeadsTo b b

variable {g : Addr → Shown}

theorem isOk_debugWith_iff :
    (h.debugWith g v).isOk = true ↔
      h.Legible v ∧ ∀ b, h.unwrap v = .ref b → (g b).isOk = true := by
  rw [debugWith, Legible]
  cases h.unwrap v with
  | scalar s => simp [isOk_limited_iff]
  | undefined single m => cases single <;> exact ⟨fun _ => ⟨trivial, nofun⟩, fun _ => rfl⟩
  | tuple items => simp [isOk_exact_iff]
  | ref a => simp

theorem isOk_debugAll_iff {vs : List Value} :
    (h.debugAll g vs).isOk = true ↔ ∀ v ∈ vs, (h.debugWith g v).isOk = true := by
  induction vs with
  | nil => exact ⟨fun _ => nofun, fun _ => rfl⟩
  | cons v rest ih => rw [debugAll, isOk_bind₂, ih, List.forall_mem_cons]

theorem isOk_debugEntries_iff {entries : List (Value × Value)} :
    (h.debugEntries g entries).isOk = true ↔
      ∀ entry ∈ entries, h.Showable entry.1 ∧ (h.debugWith g entry.2).isOk = true := by
  induction entries with
  | nil => exact ⟨fun _ => nofun, fun _ => rfl⟩
  | cons entry rest ih =>
    rw [debugEntries, isOk_bind fun _ => isOk_bind₂, ih, List.forall_mem_cons, isOk_plain_iff,
      and_assoc]

theorem asks_debug :
    Asks (fun inner trail => h.debugStep (inner trail)) h.LegibleCell h.LeadsTo := by
  intro f t a
  simp only [debugStep, LegibleCell, LeadsTo, laidIn]
  cases hc : h.get? a with
  | none => simp [isOk_exact_iff]
  | some c =>
    cases c with
    | array items =>
      simp only [isOk_map, isOk_debugAll_iff, isOk_debugWith_iff]
      grind
    | map entries =>
      simp only [isOk_map, isOk_debugEntries_iff, isOk_debugWith_iff, List.mem_map]
      grind
    | _ => simp [isOk_exact_iff]

theorem LeadsTo.lt (hab : h.LeadsTo a b) : a < h.size := by
  obtain ⟨v, hv, -⟩ := hab
  by_contra hlt
  have hnone : h.get? a = none := Array.getElem?_eq_none (Nat.le_of_not_lt hlt)
  rw [laidIn, hnone] at hv
  exact absurd hv List.not_mem_nil

/-- **There is a debug text just if everything that is laid out has one and nothing leads back to
itself.** -/
theorem isOk_debug_iff : (h.debug v).isOk = true ↔ h.Debuggable v := by
  have hcell (a : Addr) := isOk_follow_iff (n := h.size + 1) (a := a) (asks_debug (h := h))
    (fun _ _ hab => hab.lt) (Nat.lt_succ_self _)
  rw [debug, isOk_debugWith_iff]
  constructor
  · rintro ⟨hlegible, hinner⟩
    exact ⟨hlegible, fun a b ha hb => ((hcell a).mp (hinner a ha) b hb).1,
      fun a b ha hb => ((hcell a).mp (hinner a ha) b hb).2⟩
  · intro hv
    refine ⟨hv.legible, fun a ha => (hcell a).mpr fun b hb => ?_⟩
    exact ⟨hv.cells a b ha hb, hv.ends a b ha hb⟩

/-! ## The display form -/

/-- What the display text of a value needs. -/
def Displayable (h : Heap) (places : Precision) (v : Value) : Prop :=
  match h.unwrap v with
  | .scalar s => s.long = false ∧ (s.display places).isOk = true
  | .undefined .. => True
  | w => if h.kindOf w = .array ∨ h.kindOf w = .map then h.Debuggable w else h.Showable w

theorem isOk_display_iff : (h.display places v).isOk = true ↔ h.Displayable places v := by
  rw [display, Displayable]
  cases h.unwrap v with
  | scalar s => exact isOk_limited_iff
  | undefined single m => cases single <;> exact ⟨fun _ => trivial, fun _ => rfl⟩
  | tuple items => simp [kindOf, isOk_plain_iff]
  | ref a =>
    dsimp only
    cases h.kindOf (.ref a) <;> simp [debugMap, isOk_map, isOk_debug_iff, isOk_plain_iff]

/-- What the text of a value in a message needs. -/
def Presentable (h : Heap) (places : Precision) (v : Value) : Prop :=
  if h.kindOf v = .dynamic then h.Displayable places v else h.Showable v

theorem isOk_shown_iff : (h.shown places v).isOk = true ↔ h.Presentable places v := by
  rw [shown, Presentable]
  split
  · exact isOk_display_iff
  · exact isOk_plain_iff

end Heap
end ScriptHost
