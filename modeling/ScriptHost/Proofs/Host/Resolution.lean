import ScriptHost.Proofs.Host.History
import ScriptHost.Proofs.Table.Overloads

/-!
# What a call finds

A call on an engine searches the engine's own table and then the tables it has loaded, the
latest first.  `resolve_after` says what it finds after any run, in terms of the history of the
run (`Host.Traced`) and of nothing that a table keeps: the first table into which an overload
that takes the arguments was ever written decides, and within it the last function under the
key with the fewest wildcards, the earliest such key of several (`Table.Best`).

The step from one table to all is `List.findSome?`; the rest is `find?_eq_some_iff_best`.

`found_filled_after` says that nothing is registered in vain: whatever other overloads a table has,
each function in it is what some call finds there.
-/

namespace ScriptHost
namespace Host

open Event

/-- The tables in which an engine looks for functions: its own, then the loaded ones from the
latest to the first. -/
def searchedAfter (s : Host) (H : List Event) (e : EngineId) : List TableId :=
  (s.engine e).own :: (loads H e).reverse

/-- No overload that was written into the table takes the arguments. -/
def Unanswered (H : List Event) (name : String) (kinds : List Kind) (t : TableId) : Prop :=
  ∀ g ∈ writes H t, g.name = name → ¬ g.Accepts kinds

/-- The choice for a call among tables: no table before decides, and it is the choice of the
first that does. -/
def Chosen (H : List Event) (tables : List TableId) (name : String) (kinds : List Kind)
    (f : Native) : Prop :=
  ∃ before t after, tables = before ++ t :: after ∧
    (∀ u ∈ before, Unanswered H name kinds u) ∧ Table.Best (writes H t) name kinds f

variable {s : Host} {H : List Event}

theorem searched_of_traced (h : Traced .initial H s) (e : EngineId) :
    (s.engine e).searched = s.searchedAfter H e := by
  rw [Engine.searched, searchedAfter, loaded_of_traced h e]

/-- The search goes over the tables in order. -/
theorem resolve_eq_findSome? (h : Traced .initial H s) (e : EngineId) (name : String)
    (kinds : List Kind) :
    s.resolve e name kinds =
      (s.searchedAfter H e).findSome? fun t => (s.table t).find? name kinds := by
  rw [resolve, Table.findIn?, tablesOf, searched_of_traced h, List.findSome?_map]
  rfl

theorem find?_eq_none_iff_unanswered (h : Traced .initial H s) (t : TableId) (name : String)
    (kinds : List Kind) :
    (s.table t).find? name kinds = none ↔ Unanswered H name kinds t :=
  Table.find?_eq_none_iff (functions_of_traced h t) name kinds

theorem resolve_eq_none_iff (h : Traced .initial H s) (e : EngineId) (name : String)
    (kinds : List Kind) :
    s.resolve e name kinds = none ↔ ∀ t ∈ s.searchedAfter H e, Unanswered H name kinds t := by
  rw [resolve_eq_findSome? h, List.findSome?_eq_none_iff]
  exact forall₂_congr fun t _ => find?_eq_none_iff_unanswered h t name kinds

theorem resolve_eq_some_iff (h : Traced .initial H s) (e : EngineId) (name : String)
    (kinds : List Kind) (f : Native) :
    s.resolve e name kinds = some f ↔ Chosen H (s.searchedAfter H e) name kinds f := by
  rw [resolve_eq_findSome? h, List.findSome?_eq_some_iff]
  constructor
  · rintro ⟨before, t, after, hsplit, hfind, hbefore⟩
    refine ⟨before, t, after, hsplit, fun u hu => ?_, ?_⟩
    · exact (find?_eq_none_iff_unanswered h u name kinds).mp (hbefore u hu)
    · exact (Table.find?_eq_some_iff_best (functions_of_traced h t) name kinds f).mp hfind
  · rintro ⟨before, t, after, hsplit, hbefore, hbest⟩
    refine ⟨before, t, after, hsplit, ?_, fun u hu => ?_⟩
    · exact (Table.find?_eq_some_iff_best (functions_of_traced h t) name kinds f).mpr hbest
    · exact (find?_eq_none_iff_unanswered h u name kinds).mpr (hbefore u hu)

/-- **What a call finds after any run.**  The run has a history, and with every history of it:
a function is found exactly when it is the choice among the searched tables, nothing is found
exactly when none of them has an overload for the call, and in every table the look for the
exact kinds gives what the scan for the fewest wildcards alone would give. -/
theorem resolve_after (cs : List Command) :
    (∃ H, Traced .initial H (Host.initial.after cs)) ∧
      ∀ H, Traced .initial H (Host.initial.after cs) →
        ∀ (e : EngineId) (name : String) (kinds : List Kind),
          (∀ f, (Host.initial.after cs).resolve e name kinds = some f ↔
            Chosen H ((Host.initial.after cs).searchedAfter H e) name kinds f) ∧
          ((Host.initial.after cs).resolve e name kinds = none ↔
            ∀ t ∈ (Host.initial.after cs).searchedAfter H e, Unanswered H name kinds t) ∧
          ∀ t, ((Host.initial.after cs).table t).find? name kinds =
            Native.fewestWildcards
              ((((Host.initial.after cs).table t).overloads name).filter fun f => f.fits kinds) := by
  refine ⟨exists_traced .initial cs, fun H hH e name kinds => ⟨?_, ?_, ?_⟩⟩
  · exact resolve_eq_some_iff hH e name kinds
  · exact resolve_eq_none_iff hH e name kinds
  · exact fun t => Table.find?_eq_fewestWildcards _ name kinds

/-- **Every function in a table is found there after any run**, by calls with arguments of a kind
that no key of the table has at the wildcards of the function, and there is always such a kind. -/
theorem found_filled_after (cs : List Command) (t : TableId) (f : Native)
    (hf : f ∈ ((Host.initial.after cs).table t).functions) :
    (∀ u, (∀ k ∈ ((Host.initial.after cs).table t).keys, u ∉ k.kinds) →
      ((Host.initial.after cs).table t).find? f.name (f.filled u) = some f) ∧
    ∃ u, u ≠ .dynamic ∧ ∀ k ∈ ((Host.initial.after cs).table t).keys, u ∉ k.kinds := by
  obtain ⟨H, hH⟩ := exists_traced .initial cs
  refine ⟨fun u hu => ?_, Table.exists_unused_kind _⟩
  exact Table.find?_filled (functions_of_traced hH t) hf hu

/-- A function of two parameters of the given kinds. -/
def pairing (k l : Kind) : Native :=
  ⟨"pair", [⟨"a", k, .value⟩, ⟨"b", l, .value⟩], true, none, [], none⟩

/-- A run that registers overloads any two of which take some call both. -/
def overlapping : List Command :=
  [.newTable none, .register 0 (pairing .dynamic .dynamic), .register 0 (pairing .int .dynamic),
    .register 0 (pairing .dynamic .int), .register 0 (pairing .int .int)]

theorem found_filled_overlapping :
    pairing .dynamic .int ∈ ((Host.initial.after overlapping).table 0).functions ∧
    (∀ k ∈ ((Host.initial.after overlapping).table 0).keys, Kind.string ∉ k.kinds) ∧
    ((Host.initial.after overlapping).table 0).find? "pair" [.string, .int] =
      some (pairing .dynamic .int) := by
  have hfunctions : ((Host.initial.after overlapping).table 0).functions =
      [pairing .dynamic .dynamic, pairing .int .dynamic, pairing .dynamic .int,
        pairing .int .int] := rfl
  have hmem : pairing .dynamic .int ∈ ((Host.initial.after overlapping).table 0).functions := by
    rw [hfunctions]
    exact List.mem_cons_of_mem _ (List.mem_cons_of_mem _ List.mem_cons_self)
  have hunused : ∀ k ∈ ((Host.initial.after overlapping).table 0).keys,
      Kind.string ∉ k.kinds := by
    rw [Table.keys, hfunctions]
    decide
  exact ⟨hmem, hunused, (found_filled_after overlapping 0 _ hmem).1 .string hunused⟩

end Host
end ScriptHost
