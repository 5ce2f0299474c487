import ScriptHost.Proofs.Host.Packages
import ScriptHost.Proofs.Table.Merging

/-!
# Merging the tables of a host

`Act.merge` copies the functions of one table into another.  It takes the list of the source once
and then registers what is in it, which raises no question as long as the tables are different ones.
A table may also be merged into itself, and then the list that is gone through is the list that is
written to.  `Walks` goes through the source as it stands at each step, and `walks_merge` shows that
this makes no difference: what is written is there already.

With that, merging is the operation of `Proofs.Table.Merging` on the functions of two tables, and
its laws are those of histories: it is associative and idempotent, and the source decides about the
keys that it has.

* `table_merge`, `table_merge_of_ne`: what a merge does to the tables.
* `merges_after`: the laws, in every state of every run.
-/

namespace ScriptHost
namespace Host

variable {s : Host} {t u v : TableId}

/-! ## What a merge does -/

/-- Merging into an open table succeeds and enters the functions of the source. -/
theorem merge_apply (hopen : (s.table t).frozen = false) (u : TableId) :
    ((Command.merge t u).perform s).1 = .ok () ∧
      ∃ log, (Command.merge t u).apply s =
        { s.fill t (s.table u).functions with log := log } := by
  obtain ⟨log, hmerge⟩ := Act.enters_merge hopen u
  exact ⟨congrArg Prod.fst hmerge, log, congrArg Prod.snd hmerge⟩

theorem table_merge (hopen : (s.table t).frozen = false) (ht : t < s.tables.size) (u : TableId) :
    ((Command.merge t u).apply s).table t =
      { s.table t with
        functions := Table.enteredInto (s.table t).functions (s.table u).functions } := by
  obtain ⟨-, log, hmerge⟩ := merge_apply hopen u
  have hfill := table_setTable s t t { s.table t with
    functions := Table.enteredInto (s.table t).functions (s.table u).functions }
  rw [if_pos ⟨rfl, ht⟩] at hfill
  rw [hmerge]
  exact hfill

/-- No table but the one that is merged into changes, the source included. -/
theorem table_merge_of_ne (hopen : (s.table t).frozen = false) (hv : v ≠ t) (u : TableId) :
    ((Command.merge t u).apply s).table v = s.table v := by
  obtain ⟨-, log, hmerge⟩ := merge_apply hopen u
  have hfill := table_setTable s t v { s.table t with
    functions := Table.enteredInto (s.table t).functions (s.table u).functions }
  rw [if_neg fun h => hv h.1.symm] at hfill
  rw [hmerge]
  exact hfill

theorem size_merge (hopen : (s.table t).frozen = false) (u : TableId) :
    ((Command.merge t u).apply s).tables.size = s.tables.size := by
  obtain ⟨-, log, hmerge⟩ := merge_apply hopen u
  rw [hmerge]
  exact Array.size_setIfInBounds

theorem frozen_merge (hopen : (s.table t).frozen = false) (u v : TableId) :
    (((Command.merge t u).apply s).table v).frozen = (s.table v).frozen := by
  by_cases hv : v = t
  · subst hv
    obtain ⟨-, log, hmerge⟩ := merge_apply hopen u
    rw [hmerge]
    exact frozen_fill s v _
  · rw [table_merge_of_ne hopen hv]

/-- Filling a table with functions that it holds changes nothing. -/
theorem fill_of_subset {ws fs : List Native} (ht : (s.table t).functions = Table.entered ws)
    (hfs : ∀ f ∈ fs, f ∈ (s.table t).functions) : s.fill t fs = s := by
  have hsame : Table.enteredInto (s.table t).functions fs = (s.table t).functions := by
    rw [ht] at hfs ⊢
    exact Table.enteredInto_of_subset hfs
  rw [fill, hsame]
  exact setTable_self s t

/-! ## Going through a table that is written to -/

/-- Registers the functions of the source in the target one by one, from a position on, each read
off the source as it stands when its turn comes. -/
inductive Walks (target source : TableId) : Nat → Host → Host → Prop
  | done {i : Nat} {s : Host} (h : (s.table source).functions[i]? = none) :
      Walks target source i s s
  | next {i : Nat} {s s₁ s₂ : Host} {f : Native}
      (h : (s.table source).functions[i]? = some f)
      (hregister : Act.register target f s = (.ok (), s₁))
      (hrest : Walks target source (i + 1) s₁ s₂) : Walks target source i s s₂

/-- A function that is read off the source leaves the source as it is, when it is registered in
another table and when it is registered in the source itself. -/
theorem functions_register {s' : Host} {f : Native} {ws : List Native}
    (hopen : (s.table t).frozen = false) (hu : (s.table u).functions = Table.entered ws)
    (hf : f ∈ (s.table u).functions) (h : Act.register t f s = (.ok (), s')) :
    (s'.table u).functions = (s.table u).functions := by
  rw [Act.register_of_open hopen] at h
  rw [← (Prod.mk.inj h).2, table_setTable]
  by_cases htu : t = u
  · subst htu
    have hsame : Table.insert f (s.table t).functions = (s.table t).functions := by
      rw [hu] at hf ⊢
      exact Table.insert_of_mem_entered hf
    rw [hsame]
    exact ite_self _ ▸ rfl
  · rw [if_neg fun h => htu h.1]
    rfl

/-- The induction is on what is still ahead; the source stays the list that it was at the start. -/
theorem walks_registerAll (hopen : (s.table t).frozen = false) {ws rest : List Native}
    (before : List Native) (hu : (s.table u).functions = Table.entered ws)
    (hsplit : (s.table u).functions = before ++ rest) :
    Walks t u before.length s (Act.registerAll t rest s).2 := by
  induction rest generalizing s before with
  | nil =>
    refine .done ?_
    rw [hsplit, List.append_nil, List.getElem?_length]
  | cons f rest ih =>
    have hread : (s.table u).functions[before.length]? = some f := by
      rw [hsplit, List.getElem?_append_right (Nat.le_refl _), Nat.sub_self]
      rfl
    obtain ⟨s₁, hregister, hopen₁, -⟩ := Act.register_ok hopen f
    have hkept := functions_register hopen hu (List.mem_of_getElem? hread) hregister
    have hrest := ih hopen₁ (before ++ [f]) (hkept.trans hu)
      (hkept.trans (hsplit.trans (List.append_cons before f rest)))
    rw [List.length_append, List.length_singleton] at hrest
    rw [Act.registerAll, Act.bind_apply, hregister]
    exact .next hread hregister hrest

/-- **It makes no difference that the source is read while the target is written**, also where they
are one table. -/
theorem walks_merge (hopen : (s.table t).frozen = false) {ws : List Native}
    (hu : (s.table u).functions = Table.entered ws) :
    Walks t u 0 s ((Command.merge t u).apply s) :=
  walks_registerAll hopen [] hu rfl

/-! ## The laws -/

/-- The laws of merging for the tables `a`, `b` and `c` of a state.  Tables are compared as wholes:
with the order of the names, the order of the overloads of each name and the function of each key. -/
structure Merges (s : Host) (a b c : TableId) : Prop where
  /-- All merges of the two orders succeed … -/
  succeed : ∀ cs ∈ [[Command.merge a b, .merge a c], [.merge b c, .merge a b]],
    ∀ p ∈ s.trace cs, (p.1.perform p.2).1 = .ok ()
  /-- … and the two orders leave the same table. -/
  assoc : (s.after [.merge a b, .merge a c]).table a = (s.after [.merge b c, .merge a b]).table a
  /-- Merging the same table again changes nothing more. -/
  again : s.AddsNothing (.merge a b) (.merge a b)
  /-- Merging a table into itself succeeds and changes nothing. -/
  self : ((Command.merge a a).perform s).1 = .ok () ∧ s.OnlyLog ((Command.merge a a).apply s)
  /-- The source decides about the keys that it has, the target about the others … -/
  lookup : ∀ k, (((Command.merge a b).apply s).table a).get? k =
    ((s.table b).get? k).or ((s.table a).get? k)
  /-- … and this is what a call with arguments of the kinds of the key runs. -/
  runs : ∀ k f, (((Command.merge a b).apply s).table a).get? k = some f →
    (((Command.merge a b).apply s).table a).find? k.name k.kinds = some f
  /-- The source stays as it is, and so does every other table. -/
  elsewhere : ∀ u, u ≠ a → ((Command.merge a b).apply s).table u = s.table u
  /-- It does not matter whether the source is read at once or while the target is written. -/
  live : ∀ source, Walks a source 0 s ((Command.merge a source).apply s)

variable {a b c : TableId} {ws vs : List Native}

theorem succeed_merges (hopena : (s.table a).frozen = false) (hopenb : (s.table b).frozen = false) :
    ∀ cs ∈ [[Command.merge a b, .merge a c], [.merge b c, .merge a b]],
      ∀ p ∈ s.trace cs, (p.1.perform p.2).1 = .ok () := by
  have hopen₁ : (((Command.merge a b).apply s).table a).frozen = false :=
    (frozen_merge hopena b a).trans hopena
  have hopen₂ : (((Command.merge b c).apply s).table a).frozen = false :=
    (frozen_merge hopenb c a).trans hopena
  simp only [List.forall_mem_cons, trace, List.not_mem_nil, false_implies, implies_true, and_true]
  exact ⟨⟨(merge_apply hopena b).1, (merge_apply hopen₁ c).1⟩,
    (merge_apply hopenb c).1, (merge_apply hopen₂ b).1⟩

theorem table_merge_assoc (hab : a ≠ b) (hac : a ≠ c) (ha : a < s.tables.size)
    (hb : b < s.tables.size) (hopena : (s.table a).frozen = false)
    (hopenb : (s.table b).frozen = false) (hws : (s.table a).functions = Table.entered ws)
    (hvs : (s.table b).functions = Table.entered vs) :
    (s.after [.merge a b, .merge a c]).table a = (s.after [.merge b c, .merge a b]).table a := by
  have hleft : (s.after [.merge a b, .merge a c]).table a = { s.table a with
      functions := Table.enteredInto
        (Table.enteredInto (s.table a).functions (s.table b).functions)
        (s.table c).functions } := by
    have hopen := (frozen_merge hopena b a).trans hopena
    have hsize := (size_merge hopena b).symm ▸ ha
    rw [after_cons, after_cons, after_nil, table_merge hopen hsize, table_merge hopena ha,
      table_merge_of_ne hopena hac.symm]
  have hright : (s.after [.merge b c, .merge a b]).table a = { s.table a with
      functions := Table.enteredInto (s.table a).functions
        (Table.enteredInto (s.table b).functions (s.table c).functions) } := by
    have hopen := (frozen_merge hopenb c a).trans hopena
    have hsize := (size_merge hopenb c).symm ▸ ha
    rw [after_cons, after_cons, after_nil, table_merge hopen hsize, table_merge hopenb hb,
      table_merge_of_ne hopenb hab]
  rw [hleft, hright, hws, hvs, Table.enteredInto_assoc]

theorem merge_again (hab : a ≠ b) (hopena : (s.table a).frozen = false)
    (hws : (s.table a).functions = Table.entered ws) :
    s.AddsNothing (.merge a b) (.merge a b) := by
  have hopen := (frozen_merge hopena b a).trans hopena
  have hsecond := Act.enters_merge hopen b
  rw [table_merge_of_ne hopena hab.symm] at hsecond
  refine addsNothing_of_enters (Act.enters_merge hopena b) hsecond ?_
  rw [hws]
  exact (Table.Alike.refl _).enteredInto_again ws

theorem merge_self (hopena : (s.table a).frozen = false)
    (hws : (s.table a).functions = Table.entered ws) :
    ((Command.merge a a).perform s).1 = .ok () ∧ s.OnlyLog ((Command.merge a a).apply s) := by
  obtain ⟨hok, log, hmerge⟩ := merge_apply hopena a
  rw [fill_of_subset hws fun f hf => hf] at hmerge
  exact ⟨hok, by rw [OnlyLog, hmerge]⟩

/-- **The laws of merging hold in every state of every run**, whatever the tables hold. -/
theorem merges_after (cs : List Command) (hab : a ≠ b) (hac : a ≠ c)
    (ha : a < (Host.initial.after cs).tables.size) (hb : b < (Host.initial.after cs).tables.size)
    (hopena : ((Host.initial.after cs).table a).frozen = false)
    (hopenb : ((Host.initial.after cs).table b).frozen = false) :
    (Host.initial.after cs).Merges a b c where
  succeed := succeed_merges hopena hopenb
  assoc := table_merge_assoc hab hac ha hb hopena hopenb (functions_after .initial cs a)
    (functions_after .initial cs b)
  again := merge_again hab hopena (functions_after .initial cs a)
  self := merge_self hopena (functions_after .initial cs a)
  lookup := Table.get?_enteredInto (functions_after .initial cs a) (functions_after .initial cs b)
    (congrArg Table.functions (table_merge hopena ha b))
  runs _ _ := Table.find?_of_get?
  elsewhere _ hu := table_merge_of_ne hopena hu b
  live source := walks_merge hopena (functions_after .initial cs source)

/-- Three tables with overloads of the same two names, in different orders and with other bodies
under some of the keys. -/
def crossing : List Command :=
  let native (name : String) (k : Kind) (home : EngineId) : Native :=
    ⟨name, [⟨"x", k, .value⟩], true, none, [], some home⟩
  [.newTable (some "a"), .newTable (some "b"), .newTable (some "c"),
    .register 0 (native "f" .int 0), .register 0 (native "g" .int 0),
    .register 1 (native "g" .string 1), .register 1 (native "f" .int 1),
    .register 2 (native "f" .bool 2), .register 2 (native "g" .int 2), .freeze 2]

/-- Both orders of merging them, with the kind and the table of origin of each function. -/
theorem merges_crossing :
    (Host.initial.after crossing).Merges 0 1 2 ∧
      (((Host.initial.after crossing).after [.merge 0 1, .merge 0 2]).table 0).functions.map
        (fun f => (f.name, f.kinds, f.home)) =
      [("f", [.int], some 1), ("f", [.bool], some 2),
        ("g", [.int], some 2), ("g", [.string], some 1)] := by
  have hopen : ∀ t, t < 2 → ((Host.initial.after crossing).table t).frozen = false := by
    decide +kernel
  exact ⟨merges_after crossing (by decide) (by decide) (by decide +kernel) (by decide +kernel)
    (hopen 0 (by decide)) (hopen 1 (by decide)), by decide +kernel⟩

end Host
end ScriptHost
