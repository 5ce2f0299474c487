import Mathlib.Data.Finset.Card
import Mathlib.Data.Finset.Range
import Mathlib.Logic.Relation
import ScriptHost.Value.Shown

/-!
# Going from cell to cell

`follow` enters a cell only if it is not on the trail, and puts it there.  So along a trail each
cell is entered once, and a bound above the number of addresses that are left is as good as any
other (`follow_congr`).

A traversal that fails where it comes back has a text just if the cells it comes by are in order
and none of them leads back to itself (`isOk_follow_iff`).

* `remaining`: how many addresses are not on a trail.
* `follow_congr`: traversals agree if their steps do, whatever their bounds.
* `isOk_of_isOk_follow`, `isOk_follow_of_acyclic`: what a text needs, and what is enough for it.
-/

namespace ScriptHost

open Relation

variable {ε α β γ : Type} {again again' : Addr → Shown}
  {step step' : (List Value → Addr → Shown) → List Value → Addr → Shown}
  {trail trail' : List Value} {bound n m : Nat} {a b : Addr}

theorem isOk_map (x : Except ε α) (f : α → β) : (x.map f).isOk = x.isOk := by
  cases x <;> rfl

theorem isOk_bind {x : Except ε α} {f : α → Except ε β} {P : Prop}
    (hf : ∀ a, (f a).isOk = true ↔ P) : (x >>= f).isOk = true ↔ x.isOk = true ∧ P := by
  cases x with
  | error c => exact ⟨nofun, nofun⟩
  | ok a => exact (hf a).trans ⟨fun h => ⟨rfl, h⟩, fun h => h.2⟩

theorem isOk_bind₂ {x : Except ε α} {y : Except ε β} {f : α → β → γ} :
    (x >>= fun a => y >>= fun b => .ok (f a b)).isOk = true ↔ x.isOk = true ∧ y.isOk = true :=
  isOk_bind fun _ =>
    (isOk_bind fun _ => ⟨fun _ => trivial, fun _ => rfl⟩).trans (iff_of_eq (and_true _))

/-! ## Trails -/

/-- How many of the addresses below a bound are not on a trail. -/
def remaining (bound : Nat) (trail : List Value) : Nat :=
  ((Finset.range bound).filter fun a => Value.ref a ∉ trail).card

theorem remaining_nil (bound : Nat) : remaining bound [] = bound := by
  simp [remaining]

theorem remaining_le (hsub : trail ⊆ trail') : remaining bound trail' ≤ remaining bound trail :=
  Finset.card_le_card fun a ha => by
    rw [Finset.mem_filter] at ha ⊢
    exact ⟨ha.1, fun hmem => ha.2 (hsub hmem)⟩

theorem remaining_lt (ha : a < bound) (hnew : .ref a ∉ trail) :
    remaining bound (.ref a :: trail) < remaining bound trail := by
  refine Finset.card_lt_card (Finset.ssubset_iff_of_subset ?_ |>.mpr ⟨a, ?_, ?_⟩)
  · intro b hb
    rw [Finset.mem_filter] at hb ⊢
    exact ⟨hb.1, fun hmem => hb.2 (List.mem_cons_of_mem _ hmem)⟩
  · exact Finset.mem_filter.mpr ⟨Finset.mem_range.mpr ha, hnew⟩
  · simp

/-- The bound that is left after an address is entered. -/
theorem remaining_lt_pred (ha : a < bound) (hnew : .ref a ∉ trail) (hsub : .ref a :: trail ⊆ trail')
    (hn : remaining bound trail < n + 1) : remaining bound trail' < n := by
  have hle : remaining bound trail' ≤ remaining bound (.ref a :: trail) := remaining_le hsub
  have hlt := remaining_lt ha hnew
  omega

/-! ## Agreement -/

theorem follow_of_mem (hmem : .ref a ∈ trail) :
    follow again step (n + 1) trail a = again a := by
  rw [follow, if_pos hmem]

theorem follow_of_not_mem (hnew : .ref a ∉ trail) :
    follow again step (n + 1) trail a = step (follow again step n) (.ref a :: trail) a := by
  rw [follow, if_neg hnew]

/-- **Traversals agree if their steps do.**  The bounds do not matter as long as each is greater
than the number of addresses that are left. -/
theorem follow_congr {P : Addr → Prop} (hP : ∀ a, P a → a < bound)
    (hagain : ∀ a, P a → again a = again' a)
    (hstep : ∀ f g t a, P a → (∀ t' b, t ⊆ t' → P b → f t' b = g t' b) → step f t a = step' g t a)
    (hn : remaining bound trail < n) (hm : remaining bound trail < m) (ha : P a) :
    follow again step n trail a = follow again' step' m trail a := by
  induction n generalizing m trail a with
  | zero => exact absurd hn (Nat.not_lt_zero _)
  | succ n ih =>
    cases m with
    | zero => exact absurd hm (Nat.not_lt_zero _)
    | succ m =>
      by_cases hmem : .ref a ∈ trail
      · rw [follow_of_mem hmem, follow_of_mem hmem, hagain a ha]
      · rw [follow_of_not_mem hmem, follow_of_not_mem hmem]
        refine hstep _ _ _ a ha fun t b hsub hb => ih ?_ ?_ hb
        · exact remaining_lt_pred (hP a ha) hmem hsub hn
        · exact remaining_lt_pred (hP a ha) hmem hsub hm

/-! ## Traversals that fail where they come back -/

section Strict

variable {own : Addr → Prop} {next : Addr → Addr → Prop}

/-- The step has a text for a cell if the cell itself is in order and there are texts for all cells
that come next. -/
def Asks (step : (List Value → Addr → Shown) → List Value → Addr → Shown) (own : Addr → Prop)
    (next : Addr → Addr → Prop) : Prop :=
  ∀ f t a, (step f t a).isOk = true ↔ own a ∧ ∀ b, next a b → (f t b).isOk = true

/-- **A text needs all cells to be in order**, and none of them may lead back to itself. -/
theorem isOk_of_isOk_follow (hasks : Asks step own next)
    (hok : (follow (fun _ => .error .tooDeep) step n trail a).isOk = true)
    (hb : ReflTransGen next a b) : own b ∧ .ref b ∉ trail ∧ ¬ TransGen next b b := by
  induction n generalizing trail a with
  | zero => exact absurd hok nofun
  | succ n ih =>
    have hnew : .ref a ∉ trail := fun hmem => by
      rw [follow_of_mem hmem] at hok
      exact absurd hok nofun
    rw [follow_of_not_mem hnew, hasks] at hok
    obtain ⟨hown, hinner⟩ := hok
    rcases ReflTransGen.cases_head hb with rfl | ⟨c, hc, hcb⟩
    · refine ⟨hown, hnew, fun hcycle => ?_⟩
      -- what comes after the cell does not come back to it
      obtain ⟨c, hc, hca⟩ := TransGen.head'_iff.mp hcycle
      exact (ih (hinner c hc) hca).2.1 List.mem_cons_self
    · obtain ⟨hownb, hnewb, hcycle⟩ := ih (hinner c hc) hcb
      exact ⟨hownb, fun hmem => hnewb (List.mem_cons_of_mem _ hmem), hcycle⟩

/-- … and that is enough for a text. -/
theorem isOk_follow_of_acyclic (hasks : Asks step own next)
    (hbound : ∀ a b, next a b → a < bound) (hn : remaining bound trail < n)
    (htrail : ∀ b, .ref b ∈ trail → TransGen next b a)
    (hall : ∀ b, ReflTransGen next a b → own b ∧ ¬ TransGen next b b) :
    (follow again step n trail a).isOk = true := by
  induction n generalizing trail a with
  | zero => exact absurd hn (Nat.not_lt_zero _)
  | succ n ih =>
    have hnew : .ref a ∉ trail := fun hmem => (hall a .refl).2 (htrail a hmem)
    rw [follow_of_not_mem hnew, hasks]
    refine ⟨(hall a .refl).1, fun b hb => ih ?_ (fun c hc => ?_) fun c hc => ?_⟩
    · exact remaining_lt_pred (hbound a b hb) hnew (List.Subset.refl _) hn
    · rcases List.mem_cons.mp hc with heq | hc
      · obtain rfl := Value.ref.inj heq
        exact .single hb
      · exact (htrail c hc).tail hb
    · exact hall c (.head hb hc)

/-- **A traversal that fails where it comes back has a text just if all cells that it comes by are
in order and none of them leads back to itself.** -/
theorem isOk_follow_iff (hasks : Asks step own next) (hbound : ∀ a b, next a b → a < bound)
    (hn : bound < n) :
    (follow (fun _ => .error .tooDeep) step n [] a).isOk = true ↔
      ∀ b, ReflTransGen next a b → own b ∧ ¬ TransGen next b b := by
  constructor
  · intro hok b hb
    obtain ⟨hown, -, hcycle⟩ := isOk_of_isOk_follow hasks hok hb
    exact ⟨hown, hcycle⟩
  · exact isOk_follow_of_acyclic hasks hbound (by rwa [remaining_nil]) nofun

end Strict

end ScriptHost
