import ScriptHost.Proofs.Host.Command
import ScriptHost.Proofs.Table.Contents

/-!
# Histories of a host

What calls find depends on two kinds of events only: a function is written into a table, and
an engine loads a table.  `Host.Traced s H s'` says that the events `H`, in this order, lead
from `s` to `s'`.  A write is an event when it succeeds, whichever operation makes it; all
that happens between events leaves the functions of the tables and the lists of loaded tables
alone.

* `exists_traced`: every run has a history.
* `functions_of_traced`: a table holds what its writes leave (`Table.entered`).
* `loaded_of_traced`: an engine has loaded its tables in the order of the events.

A write into a table that does not exist changes nothing and is no event.
-/

namespace ScriptHost

/-- What calls on engines depend on. -/
inductive Event where
  /-- A function is entered into a table. -/
  | wrote (t : TableId) (f : Native)
  /-- An engine loads a table. -/
  | loaded (e : EngineId) (t : TableId)

namespace Event

/-- The functions written into a table, in order. -/
def writes (H : List Event) (t : TableId) : List Native :=
  H.filterMap fun
    | wrote u f => if u = t then some f else none
    | loaded _ _ => none

/-- The tables an engine loads, in order. -/
def loads (H : List Event) (e : EngineId) : List TableId :=
  H.filterMap fun
    | wrote _ _ => none
    | loaded d t => if d = e then some t else none

theorem writes_concat_wrote (H : List Event) (t u : TableId) (f : Native) :
    writes (H ++ [wrote t f]) u = if t = u then writes H u ++ [f] else writes H u := by
  rw [writes, List.filterMap_append]
  split <;> simp_all [writes]

theorem writes_concat_loaded (H : List Event) (e : EngineId) (t u : TableId) :
    writes (H ++ [loaded e t]) u = writes H u := by
  simp [writes]

theorem loads_concat_loaded (H : List Event) (e d : EngineId) (t : TableId) :
    loads (H ++ [loaded e t]) d = if e = d then loads H d ++ [t] else loads H d := by
  rw [loads, List.filterMap_append]
  split <;> simp_all [loads]

theorem loads_concat_wrote (H : List Event) (e : EngineId) (t : TableId) (f : Native) :
    loads (H ++ [wrote t f]) e = loads H e := by
  simp [loads]

end Event

namespace Host

open Event

/-- The events lead from one state to another. -/
inductive Traced (s : Host) : List Event → Host → Prop where
  | refl : Traced s [] s
  | wrote {H : List Event} {s' : Host} (t : TableId) (f : Native) :
      Traced s H s' → t < s'.tables.size → (Act.register t f s').1 = .ok () →
      Traced s (H ++ [wrote t f]) (Act.register t f s').2
  | loaded {H : List Event} {s' : Host} (e : EngineId) (t : TableId) :
      Traced s H s' → e < s'.engines.size → Traced s (H ++ [loaded e t]) (Act.addTable e t s').2
  | aside {H : List Event} {s' s'' : Host} :
      Traced s H s' → (∀ t, (s''.table t).functions = (s'.table t).functions) →
      (∀ e, (s''.engine e).loaded = (s'.engine e).loaded) → Traced s H s''

/-! ## Tables and engines after a change -/

/-- A new table has no functions, like one that does not exist. -/
theorem functions_push (s : Host) (name : Option String) (t : TableId) :
    (table { s with tables := s.tables.push (.empty name) } t).functions =
      (s.table t).functions := by
  rw [table, table, Array.getElem?_push]
  split
  · rename_i ht
    rw [ht, Array.getElem?_eq_none (Nat.le_refl _)]
    rfl
  · rfl

theorem functions_freeze (s : Host) (t u : TableId) :
    ((s.setTable t (s.table t).freeze).table u).functions = (s.table u).functions := by
  rw [table_setTable]
  split
  · rename_i h
    rw [← h.1]
    rfl
  · rfl

/-- A new engine has loaded nothing, like one that does not exist. -/
theorem loaded_push (s : Host) (fs : Features) (own : TableId) (e : EngineId) :
    (engine { s with engines := s.engines.push ⟨fs, own, [], [], false⟩ } e).loaded =
      (s.engine e).loaded := by
  rw [engine, engine, Array.getElem?_push]
  split
  · rename_i he
    rw [he, Array.getElem?_eq_none (Nat.le_refl _)]
    rfl
  · rfl

theorem Traced.trans {s s' s'' : Host} {H J : List Event} (h : Traced s H s')
    (h' : Traced s' J s'') : Traced s (H ++ J) s'' := by
  induction h' with
  | refl => rwa [List.append_nil]
  | wrote t f _ ht hok ih =>
    rw [← List.append_assoc]
    exact ih.wrote t f ht hok
  | loaded e t _ he ih =>
    rw [← List.append_assoc]
    exact ih.loaded e t he
  | aside _ hfunctions hloaded ih => exact ih.aside hfunctions hloaded

/-! ## Every run has a history -/

/-- A function that is entered without a word in the log is entered all the same. -/
theorem traced_entered (s : Host) (t : TableId) (f : Native) (hopen : (s.table t).frozen = false) :
    ∃ H, Traced s H
      (s.setTable t { s.table t with functions := Table.insert f (s.table t).functions }) := by
  by_cases ht : t < s.tables.size
  · refine ⟨[wrote t f], (Traced.refl.wrote t f ht ?_).aside (fun u => ?_) fun e => ?_⟩
    · rw [Act.register_of_open hopen]
    · rw [Act.register_of_open hopen, table_setTable, table_setTable]
      rfl
    · rw [Act.register_of_open hopen]
      rfl
  · refine ⟨[], Traced.refl.aside (fun u => ?_) fun e => rfl⟩
    rw [table_setTable, if_neg fun h => ht h.2]

theorem traced_loaded (s : Host) (e : EngineId) (t : TableId) :
    ∃ H, Traced s H
      (s.setEngine e { s.engine e with loaded := (s.engine e).loaded ++ [t] }) := by
  by_cases he : e < s.engines.size
  · exact ⟨[loaded e t], Traced.refl.loaded e t he⟩
  · refine ⟨[], Traced.refl.aside (fun u => rfl) fun d => ?_⟩
    rw [engine_setEngine, if_neg fun h => he h.2]

/-- Each single change of a state has a history, of one event at most. -/
theorem along_traced : Along anyBuilder fun s s' => ∃ H, Traced s H s' where
  refl s := ⟨[], .refl⟩
  trans := fun ⟨H, h⟩ ⟨J, h'⟩ => ⟨H ++ J, h.trans h'⟩
  aside s _ _ _ _ := ⟨[], Traced.refl.aside (fun _ => rfl) fun _ => rfl⟩
  packed s _ _ := ⟨[], Traced.refl.aside (fun _ => rfl) fun _ => rfl⟩
  newTable s name := ⟨[], Traced.refl.aside (functions_push s name) fun _ => rfl⟩
  entered := traced_entered
  frozen s t := ⟨[], Traced.refl.aside (functions_freeze s t) fun _ => rfl⟩
  newEngine s fs name :=
    ⟨[], Traced.refl.aside (functions_push s name) (loaded_push s fs s.tables.size)⟩
  loaded := traced_loaded
  named s e names hooked := by
    refine ⟨[], Traced.refl.aside (fun _ => rfl) fun d => ?_⟩
    rw [engine_setEngine]
    split
    · rename_i h
      rw [← h.1]
    · rfl
  opened s e k := ⟨[], Traced.refl.aside (fun _ => rfl) fun _ => rfl⟩
  collected s b state _ _ _ _ _ _ := ⟨[], Traced.refl.aside (fun _ => rfl) fun _ => rfl⟩

/-- **Every run has a history.** -/
theorem exists_traced (s : Host) (cs : List Command) : ∃ H, Traced s H (s.after cs) :=
  after_along along_traced (fun _ _ => ⟨[], Traced.refl.aside (fun _ => rfl) fun _ => rfl⟩) s cs

/-! ## What the history says of the state -/

/-- **A table holds what its writes leave.** -/
theorem functions_of_traced {s : Host} {H : List Event} (h : Traced .initial H s) (t : TableId) :
    (s.table t).functions = Table.entered (writes H t) := by
  induction h with
  | refl => rfl
  | @wrote H s' u f _ hu hok ih =>
    cases hfrozen : (s'.table u).frozen with
    | true =>
      rw [Act.register_of_frozen hfrozen] at hok
      exact absurd hok (by simp)
    | false =>
      rw [Act.register_of_open hfrozen, table_setTable, writes_concat_wrote]
      by_cases hut : u = t
      · subst hut
        rw [if_pos ⟨rfl, hu⟩, if_pos rfl, Table.entered_concat, ← ih]
      · rw [if_neg fun h => hut h.1, if_neg hut]
        exact ih
  | loaded e u _ _ ih =>
    rw [writes_concat_loaded]
    exact ih
  | aside _ hfunctions _ ih => rw [hfunctions, ih]

/-- **An engine has loaded its tables in the order of the events.** -/
theorem loaded_of_traced {s : Host} {H : List Event} (h : Traced .initial H s) (e : EngineId) :
    (s.engine e).loaded = loads H e := by
  induction h with
  | refl => rfl
  | @wrote H s' u f _ _ hok ih =>
    cases hfrozen : (s'.table u).frozen with
    | true =>
      rw [Act.register_of_frozen hfrozen] at hok
      exact absurd hok (by simp)
    | false =>
      rw [Act.register_of_open hfrozen, loads_concat_wrote]
      exact ih
  | @loaded H s' d t _ hd ih =>
    have hengine : ((Act.addTable d t s').2.engine e) =
        (s'.setEngine d { s'.engine d with loaded := (s'.engine d).loaded ++ [t] }).engine e := rfl
    rw [hengine, engine_setEngine, loads_concat_loaded]
    by_cases hde : d = e
    · subst hde
      rw [if_pos ⟨rfl, hd⟩, if_pos rfl, ← ih]
    · rw [if_neg fun h => hde h.1, if_neg hde]
      exact ih
  | aside _ _ hloaded ih => rw [hloaded, ih]

end Host
end ScriptHost
