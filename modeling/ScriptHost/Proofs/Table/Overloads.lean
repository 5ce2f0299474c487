import ScriptHost.Proofs.Table.Keys
import Mathlib.Data.Fintype.EquivFin
import Mathlib.Data.List.Forall2

/-!
# Choosing among overloads

A call is answered by an overload that takes the kinds of its arguments.  `Table.find?` first
looks for exactly these kinds and only then scans for the fewest wildcards.  Here the two
looks are shown to be one, and the choice is described by the history of the table.

* `Native.Accepts`: what it means that an overload takes arguments of given kinds.
* `fewestWildcards_eq_some_iff`: the scan gives the first of those with the fewest wildcards.
* `find?_eq_fewestWildcards`: the exact look gives what the scan alone would give.  An exact
  overload has a wildcard only where the argument is a container, and there every overload
  that fits has one too, so all others have more.
* `Best`, `find?_eq_some_iff_best`: in terms of the history, the choice is the last function
  under the key with the fewest wildcards, the key that was entered earliest among several.
* `find?_filled`: every overload is the choice for some call, that with a kind for its wildcards
  which no overload has.
-/

namespace ScriptHost

/-- Each parameter takes every kind or exactly the kind of the argument at its position. -/
def Native.Accepts (f : Native) (kinds : List Kind) : Prop :=
  List.Forall₂ (fun p a => p = Kind.dynamic ∨ p = a) f.kinds kinds

namespace Native

theorem fitsKinds_iff (ps ks : List Kind) :
    fitsKinds ps ks = true ↔ List.Forall₂ (fun p a => p = Kind.dynamic ∨ p = a) ps ks := by
  induction ps generalizing ks with
  | nil => cases ks <;> simp [fitsKinds]
  | cons p ps ih =>
    cases ks with
    | nil => simp [fitsKinds]
    | cons k ks => simp [fitsKinds, ih, List.forall₂_cons]

theorem fits_iff {f : Native} {kinds : List Kind} : f.fits kinds = true ↔ f.Accepts kinds :=
  fitsKinds_iff f.kinds kinds

theorem accepts_kinds (f : Native) : f.Accepts f.kinds :=
  List.forall₂_same.mpr fun _ _ => Or.inr rfl

/-- Kinds that fit have a wildcard wherever the argument is a container. -/
theorem countP_le_of_fits {ps ks : List Kind}
    (h : List.Forall₂ (fun p a => p = Kind.dynamic ∨ p = a) ps ks) :
    ks.countP (· == .dynamic) ≤ ps.countP (· == .dynamic) := by
  induction h with
  | nil => exact Nat.le_refl _
  | @cons p k ps ks hpk _ ih =>
    rw [List.countP_cons, List.countP_cons]
    rcases hpk with rfl | rfl
    · rw [if_pos (beq_self_eq_true _)]
      split <;> omega
    · omega

/-- Kinds that fit with no more wildcards than there are containers are the kinds of the
arguments. -/
theorem eq_of_fits_of_countP_eq {ps ks : List Kind}
    (h : List.Forall₂ (fun p a => p = Kind.dynamic ∨ p = a) ps ks)
    (hc : ps.countP (· == .dynamic) = ks.countP (· == .dynamic)) : ps = ks := by
  induction h with
  | nil => rfl
  | @cons p k ps ks hpk hrest ih =>
    have hle := countP_le_of_fits hrest
    rw [List.countP_cons, List.countP_cons] at hc
    have hp : p = k := by
      rcases hpk with rfl | rfl
      · by_contra hne
        have hk : (k == Kind.dynamic) = false := beq_eq_false_iff_ne.mpr (Ne.symm hne)
        rw [if_pos (beq_self_eq_true _), hk, if_neg Bool.false_ne_true] at hc
        omega
      · rfl
    rw [hp] at hc ⊢
    rw [ih (by omega)]

/-- An overload of exactly the kinds of the arguments has fewer wildcards than any other
that fits. -/
theorem wildcards_lt_of_accepts {f g : Native} (h : g.Accepts f.kinds) (hne : g.kinds ≠ f.kinds) :
    f.wildcards < g.wildcards := by
  have hle : f.wildcards ≤ g.wildcards := countP_le_of_fits h
  have hcount : g.wildcards ≠ f.wildcards := fun hc => hne (eq_of_fits_of_countP_eq h hc)
  omega

/-- The kinds of the parameters with another one in place of each wildcard. -/
def filled (f : Native) (u : Kind) : List Kind := f.kinds.map fun k => if k = .dynamic then u else k

theorem accepts_filled (f : Native) (u : Kind) : f.Accepts (f.filled u) := by
  rw [Accepts, filled, List.forall₂_map_right_iff, List.forall₂_same]
  intro k _
  split
  · rename_i hk
    exact Or.inl hk
  · exact Or.inr rfl

/-- An overload without the kind that fills the wildcards of another one has wildcards there. -/
theorem accepts_kinds_of_accepts_filled {f g : Native} {u : Kind} (hu : u ∉ g.kinds)
    (h : g.Accepts (f.filled u)) : g.Accepts f.kinds := by
  rw [Accepts, filled, List.forall₂_map_right_iff] at h
  refine (List.forall₂_iff_zip.mp h).elim fun hlength hzip => ?_
  refine List.forall₂_iff_zip.mpr ⟨hlength, fun {p k} hpk => ?_⟩
  rcases hzip hpk with hp | hp
  · exact Or.inl hp
  · split at hp
    · exact absurd (hp ▸ (List.of_mem_zip hpk).1) hu
    · exact Or.inr hp

/-! ## The scan -/

theorem fewestWildcards_eq_none_iff {fs : List Native} :
    fewestWildcards fs = none ↔ fs = [] := by
  cases fs with
  | nil => simp [fewestWildcards]
  | cons f rest =>
    rw [fewestWildcards]
    split
    · split <;> simp
    · simp

/-- The first of several overloads with the fewest wildcards. -/
def FirstFewest (fs : List Native) (f : Native) : Prop :=
  ∃ before after, fs = before ++ f :: after ∧ (∀ g ∈ before, f.wildcards < g.wildcards) ∧
    ∀ g ∈ after, f.wildcards ≤ g.wildcards

theorem FirstFewest.mem {fs : List Native} {f : Native} (h : FirstFewest fs f) : f ∈ fs := by
  obtain ⟨before, after, rfl, -, -⟩ := h
  exact List.mem_append_right _ List.mem_cons_self

theorem FirstFewest.le {fs : List Native} {f g : Native} (h : FirstFewest fs f) (hg : g ∈ fs) :
    f.wildcards ≤ g.wildcards := by
  obtain ⟨before, after, rfl, hbefore, hafter⟩ := h
  rcases List.mem_append.mp hg with hg | hg
  · exact Nat.le_of_lt (hbefore g hg)
  · rcases List.mem_cons.mp hg with rfl | hg
    · exact Nat.le_refl _
    · exact hafter g hg

theorem firstFewest_cons_iff {x f : Native} {rest : List Native} :
    FirstFewest (x :: rest) f ↔
      (f = x ∧ ∀ g ∈ rest, x.wildcards ≤ g.wildcards) ∨
        (FirstFewest rest f ∧ f.wildcards < x.wildcards) := by
  constructor
  · rintro ⟨before, after, heq, hbefore, hafter⟩
    rcases before with _ | ⟨y, before⟩
    · obtain ⟨rfl, rfl⟩ := List.cons.inj heq
      exact Or.inl ⟨rfl, hafter⟩
    · obtain ⟨rfl, rfl⟩ := List.cons.inj heq
      exact Or.inr ⟨⟨before, after, rfl, fun g hg => hbefore g (List.mem_cons_of_mem _ hg), hafter⟩,
        hbefore x List.mem_cons_self⟩
  · rintro (⟨rfl, hrest⟩ | ⟨⟨before, after, rfl, hbefore, hafter⟩, hlt⟩)
    · exact ⟨[], rest, rfl, fun g hg => absurd hg List.not_mem_nil, hrest⟩
    · refine ⟨x :: before, after, rfl, fun g hg => ?_, hafter⟩
      rcases List.mem_cons.mp hg with rfl | hg
      · exact hlt
      · exact hbefore g hg

/-- **The scan gives the first overload with the fewest wildcards.** -/
theorem fewestWildcards_eq_some_iff {fs : List Native} {f : Native} :
    fewestWildcards fs = some f ↔ FirstFewest fs f := by
  induction fs generalizing f with
  | nil => exact ⟨fun h => absurd h (by simp [fewestWildcards]), fun h => absurd h.mem (by simp)⟩
  | cons x rest ih =>
    rw [firstFewest_cons_iff, ← ih, fewestWildcards]
    cases hrest : fewestWildcards rest with
    | none =>
      have hnil : rest = [] := fewestWildcards_eq_none_iff.mp hrest
      simp [hnil, eq_comm]
    | some g =>
      have hg : FirstFewest rest g := ih.mp hrest
      dsimp only
      by_cases hlt : g.wildcards < x.wildcards
      · rw [if_pos hlt]
        constructor
        · rintro h
          rw [← Option.some.inj h]
          exact Or.inr ⟨rfl, hlt⟩
        · rintro (⟨-, hle⟩ | ⟨h, -⟩)
          · exact absurd (hle g hg.mem) (Nat.not_le.mpr hlt)
          · exact h
      · rw [if_neg hlt]
        constructor
        · rintro h
          refine Or.inl ⟨(Option.some.inj h).symm, fun y hy => ?_⟩
          exact Nat.le_trans (Nat.not_lt.mp hlt) (hg.le hy)
        · rintro (⟨rfl, -⟩ | ⟨h, hfx⟩)
          · rfl
          · rw [← Option.some.inj h] at hfx
            exact absurd hfx hlt

end Native

namespace Table

/-! ## The choice of a table -/

/-- **The exact look gives what the scan alone would give.** -/
theorem find?_eq_fewestWildcards (t : Table) (name : String) (kinds : List Kind) :
    t.find? name kinds =
      Native.fewestWildcards ((t.overloads name).filter fun f => f.fits kinds) := by
  rw [find?]
  cases hexact : (t.overloads name).find? fun f => f.kinds == kinds with
  | none => rfl
  | some f =>
    symm
    rw [Native.fewestWildcards_eq_some_iff]
    obtain ⟨hf, before, after, hsplit, hbefore⟩ := List.find?_eq_some_iff_append.mp hexact
    have hkinds : f.kinds = kinds := beq_iff_eq.mp hf
    have hfits : f.fits kinds = true := by
      rw [Native.fits_iff, ← hkinds]
      exact f.accepts_kinds
    refine ⟨before.filter fun f => f.fits kinds, after.filter fun f => f.fits kinds, ?_, ?_, ?_⟩
    · rw [hsplit, List.filter_append, List.filter_cons, if_pos hfits]
    · intro g hg
      obtain ⟨hg, hgfits⟩ := List.mem_filter.mp hg
      have hne : g.kinds ≠ f.kinds := by
        rw [hkinds]
        simpa using hbefore g hg
      rw [Native.fits_iff, ← hkinds] at hgfits
      exact Native.wildcards_lt_of_accepts hgfits hne
    · intro g hg
      have hgfits := (List.mem_filter.mp hg).2
      rw [Native.fits_iff, ← hkinds] at hgfits
      exact Native.countP_le_of_fits hgfits

/-- The overload that a history makes the choice for a call: the last function under its key,
with the fewest wildcards of all that take the arguments, and entered under an earlier key
than those with as few. -/
structure Best (ws : List Native) (name : String) (kinds : List Kind) (f : Native) : Prop where
  name_eq : f.name = name
  accepts : f.Accepts kinds
  latest : Latest ws f
  least : ∀ g ∈ ws, g.name = name → g.Accepts kinds → g.key ≠ f.key →
    f.wildcards < g.wildcards ∨ (f.wildcards = g.wildcards ∧ Earlier ws f.key g.key)

/-- There is at most one choice. -/
theorem Best.unique {ws : List Native} {name : String} {kinds : List Kind} {f g : Native}
    (hf : Best ws name kinds f) (hg : Best ws name kinds g) : f = g := by
  refine hf.latest.unique hg.latest ?_
  by_contra hne
  have hfg := hf.least g hg.latest.mem hg.name_eq hg.accepts (Ne.symm hne)
  have hgf := hg.least f hf.latest.mem hf.name_eq hf.accepts hne
  rcases hfg with hlt | ⟨heq, hearlier⟩
  · rcases hgf with hlt' | ⟨heq', -⟩ <;> omega
  · rcases hgf with hlt' | ⟨-, hearlier'⟩
    · omega
    · exact hearlier.asymm hearlier'

theorem wildcards_eq_of_key_eq {f g : Native} (h : f.key = g.key) : f.wildcards = g.wildcards := by
  rw [Native.wildcards, Native.wildcards, (key_eq_iff.mp h).2]

variable {t : Table} {ws : List Native}

/-- The scan over the overloads that a history leaves gives its choice. -/
theorem best_of_firstFewest {name : String} {kinds : List Kind} {f : Native}
    (h : Native.FirstFewest ((block ws name).filter fun f => f.fits kinds) f) :
    Best ws name kinds f := by
  obtain ⟨hfblock, hfits⟩ := List.mem_filter.mp h.mem
  obtain ⟨hname, hlatest⟩ := mem_block_iff.mp hfblock
  refine ⟨hname, Native.fits_iff.mp hfits, hlatest, fun g hg hgname hgaccepts hne => ?_⟩
  -- compare with the function that stands in the table under the key of the other
  obtain ⟨x, hx, hxk⟩ := exists_latest hg
  have hxg := key_eq_iff.mp hxk
  have hxfits : x.fits kinds = true := by
    rw [Native.fits_iff, Native.Accepts, hxg.2]
    exact hgaccepts
  have hxmem : x ∈ (block ws name).filter fun f => f.fits kinds :=
    List.mem_filter.mpr ⟨mem_block_iff.mpr ⟨hxg.1.trans hgname, hx⟩, hxfits⟩
  rw [← wildcards_eq_of_key_eq hxk, ← hxk]
  have hxf : x ≠ f := fun heq => hne (by rw [← hxk, heq])
  have hle := h.le hxmem
  obtain ⟨before, after, hsplit, hbefore, -⟩ := h
  rw [hsplit] at hxmem
  rcases List.mem_append.mp hxmem with hx' | hx'
  · exact Or.inl (hbefore x hx')
  · have hpair := (pairwise_earlier_block ws name).filter fun f => f.fits kinds
    rw [hsplit] at hpair
    have hearlier := (List.pairwise_cons.mp (List.pairwise_append.mp hpair).2.1).1
    rcases List.mem_cons.mp hx' with hx' | hx'
    · exact absurd hx' hxf
    · rcases Nat.lt_or_eq_of_le hle with hlt | heq
      · exact Or.inl hlt
      · exact Or.inr ⟨heq, hearlier x hx'⟩

/-- A table finds no function exactly when no function of the name that was ever entered
takes the arguments. -/
theorem find?_eq_none_iff (ht : t.functions = entered ws) (name : String) (kinds : List Kind) :
    t.find? name kinds = none ↔ ∀ g ∈ ws, g.name = name → ¬ g.Accepts kinds := by
  rw [find?_eq_fewestWildcards, Native.fewestWildcards_eq_none_iff, overloads, ht, filter_entered,
    List.filter_eq_nil_iff]
  constructor
  · intro h g hg hname haccepts
    obtain ⟨x, hx, hxk⟩ := exists_latest hg
    have hxg := key_eq_iff.mp hxk
    refine h x (mem_block_iff.mpr ⟨hxg.1.trans hname, hx⟩) ?_
    rw [Native.fits_iff, Native.Accepts, hxg.2]
    exact haccepts
  · intro h g hg hfits
    obtain ⟨hname, hlatest⟩ := mem_block_iff.mp hg
    exact h g hlatest.mem hname (Native.fits_iff.mp hfits)

/-- **A table finds the choice of its history.** -/
theorem find?_eq_some_iff_best (ht : t.functions = entered ws) (name : String)
    (kinds : List Kind) (f : Native) :
    t.find? name kinds = some f ↔ Best ws name kinds f := by
  have hfound : ∀ g, t.find? name kinds = some g → Best ws name kinds g := by
    intro g hg
    rw [find?_eq_fewestWildcards, overloads, ht, filter_entered,
      Native.fewestWildcards_eq_some_iff] at hg
    exact best_of_firstFewest hg
  constructor
  · exact hfound f
  · intro hbest
    cases hfind : t.find? name kinds with
    | none =>
      exact absurd hbest.accepts
        ((find?_eq_none_iff ht name kinds).mp hfind f hbest.latest.mem hbest.name_eq)
    | some g => rw [(hfound g hfind).unique hbest]

/-- **No overload is hidden by the others**: with a kind for its wildcards that no key has, each
function of a table is found. -/
theorem find?_filled (ht : t.functions = entered ws) {f : Native} (hf : f ∈ t.functions) {u : Kind}
    (hu : ∀ k ∈ t.keys, u ∉ k.kinds) : t.find? f.name (f.filled u) = some f := by
  have hlatest : Latest ws f := mem_entered_iff.mp (ht ▸ hf)
  refine (find?_eq_some_iff_best ht _ _ f).mpr ⟨rfl, f.accepts_filled u, hlatest, ?_⟩
  intro g hg hname haccepts hne
  have hkey : g.key ∈ t.keys := by
    rw [keys, ht]
    exact mem_key_entered_iff.mpr (List.mem_map_of_mem hg)
  -- where it has no wildcard it has the kinds of the function, so it has more wildcards
  have hfits := Native.accepts_kinds_of_accepts_filled (hu _ hkey) haccepts
  exact Or.inl (Native.wildcards_lt_of_accepts hfits fun h => hne (key_eq_iff.mpr ⟨hname, h⟩))

/-- There is always a kind that no key has. -/
theorem exists_unused_kind (t : Table) : ∃ u, u ≠ Kind.dynamic ∧ ∀ k ∈ t.keys, u ∉ k.kinds := by
  have hinfinite : Infinite Kind := Infinite.of_injective
    (fun n : Nat => Kind.object (String.ofList (List.replicate n 'x')))
    fun m n h => by simpa using congrArg String.length (Kind.object.inj h)
  obtain ⟨u, hu⟩ :=
    Infinite.exists_notMem_finset (Kind.dynamic :: t.keys.flatMap Key.kinds).toFinset
  rw [List.mem_toFinset, List.mem_cons, not_or] at hu
  exact ⟨u, hu.1, fun k hk huk => hu.2 (List.mem_flatMap.mpr ⟨k, hk, huk⟩)⟩

end Table
end ScriptHost
