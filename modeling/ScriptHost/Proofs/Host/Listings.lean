import ScriptHost.Proofs.Host.Tables
import ScriptHost.Proofs.Signatures.Grouping

/-!
# What a host tells about its functions

Documentation is told about the functions of tables in two ways: as descriptions in groups, and as
plain lists of signatures.  The first sorts functions by their signatures, the second sorts the
signatures, and an engine lists those of its tables one after another.  Here the ways are shown to
agree in every state, with the history of a table (`Host.registered`) giving the order of functions
that share a signature.

Two functions can share a signature because the names of kinds are not identities, and because a
name may be any string, one that looks like the beginning of a signature included.  The overloads of
a name then stand in the order of their registration.  Functions of different names stand in the
order in which their names were first registered, whichever of the functions came first
(`not_earlier_first`).

* `Table.Listed`: a list has each function of a table once, sorted by signature.
* `exports_after`: the two ways agree, and calls search the tables in the order of the listing.
-/

namespace ScriptHost

/-- A list of the functions of a table by signature, where the table was filled by a history. -/
structure Table.Listed (t : Table) (ws fs : List Native) : Prop where
  /-- Each function of the table is there, and no other. -/
  perm : fs.Perm t.functions
  /-- No function is there twice. -/
  nodup : (fs.map Native.key).Nodup
  /-- Functions of one signature are in the order in which the table has them … -/
  stable : ∀ text, (fs.filter fun f => f.signature == text) =
    t.functions.filter fun f => f.signature == text
  /-- … which is that of the keys under one name and of the names else. -/
  order : fs.Pairwise fun f g => f.signature = g.signature → Precedes ws f g
  /-- The signatures in the descriptions are those that the table lists. -/
  signatures : (fs.map Native.describe).map Datum.describedSignature? = t.signatures.map some

theorem Table.listed_sorted {t : Table} {ws : List Native} (ht : t.functions = entered ws) :
    t.Listed ws t.sorted where
  perm := t.sorted_perm
  nodup := by
    have hkeys : (t.functions.map Native.key).Nodup := ht ▸ nodup_key_entered ws
    exact (t.sorted_perm.map Native.key).nodup_iff.mpr hkeys
  stable := t.filter_sorted
  order := pairwise_sorted_of_signature_eq (ht ▸ pairwise_precedes_entered ws)
  signatures := by rw [map_describedSignature?, map_signature_sorted]

namespace Host

/-- **What is exported about tables of different titles is complete and agrees with the lists of
their signatures**: a group for each table in the given order, with the descriptions of its
functions by signature.  And an engine lists the signatures of its tables in the order in which a
call searches them. -/
theorem exports_after (cs : List Command) :
    (∀ ts : List TableId, (ts.map fun t => ((Host.initial.after cs).table t).title).Nodup →
      (Signatures.ofTables (ts.map (Host.initial.after cs).table)).toDatum =
        .map [(.string Signatures.modulesKey, .map (ts.map fun t =>
          (.string ((Host.initial.after cs).table t).title,
            .array (((Host.initial.after cs).table t).sorted.map Native.describe))))] ∧
      ∀ t ∈ ts, ((Host.initial.after cs).table t).Listed (Host.initial.registered t cs)
        ((Host.initial.after cs).table t).sorted) ∧
    ∀ e : EngineId,
      (∀ name kinds, (Host.initial.after cs).resolve e name kinds =
        ((Host.initial.after cs).engine e).searched.findSome? fun t =>
          ((Host.initial.after cs).table t).find? name kinds) ∧
      (Host.initial.after cs).signatures e =
        ((Host.initial.after cs).engine e).searched.flatMap fun t =>
          ((Host.initial.after cs).table t).signatures := by
  refine ⟨fun ts hdistinct => ⟨?_, fun t _ => ?_⟩, fun e => ⟨fun name kinds => ?_, ?_⟩⟩
  · have hnodup : ((ts.map (Host.initial.after cs).table).map Table.title).Nodup := by
      rwa [List.map_map]
    rw [Signatures.toDatum, Signatures.ofTables_of_nodup hnodup, List.map_map, List.map_map]
    rfl
  · exact Table.listed_sorted (functions_after .initial cs t)
  · rw [resolve, Table.findIn?, tablesOf, List.findSome?_map]
    rfl
  · rw [signatures, tablesOf, List.flatMap_map]

/-- Overloads for kinds of one name: the integer of 64 bits and the unbounded one. -/
def halves : List Native :=
  [⟨"half", [⟨"n", .sized .i64, .value⟩], true, none, [], none⟩,
    ⟨"half", [⟨"n", .int, .value⟩], true, none, [], none⟩]

/-- A run that makes a table with these functions, which has no name, and an empty one. -/
def halving : List Command :=
  .newTable none :: .newTable (some "empty") :: halves.map (.register 0)

theorem exports_halving :
    ([0, 1].map fun t => ((Host.initial.after halving).table t).title).Nodup ∧
    (Signatures.ofTables ([0, 1].map (Host.initial.after halving).table)).toDatum =
      .map [(.string "modules", .map [(.string "<anonymous>", .array (halves.map Native.describe)),
        (.string "empty", .array [])])] := by
  have hdistinct :
      ([0, 1].map fun t => ((Host.initial.after halving).table t).title).Nodup := by decide +kernel
  have hhalves : ((Host.initial.after halving).table 0).sorted = halves := by
    have hfunctions : ((Host.initial.after halving).table 0).functions = halves := rfl
    rw [Table.sorted, hfunctions, List.mergeSort_of_pairwise (by decide)]
  have hempty : ((Host.initial.after halving).table 1).sorted = [] := List.mergeSort_nil
  refine ⟨hdistinct, ?_⟩
  rw [((exports_after halving).1 [0, 1] hdistinct).1, List.map_cons, List.map_singleton, hhalves,
    hempty]
  rfl

/-- A name that looks like the beginning of a signature, and a function that has the signature which
this makes. -/
def arrows : List Native :=
  [⟨"go", [⟨"n", .int, .value⟩], true, none, [], none⟩, ⟨"go() -> ", [], true, none, [], none⟩,
    ⟨"go", [], true, some .unit, [], none⟩]

/-- **Functions of one signature need not be in the order of their registration**: those of a name
that was there before come first. -/
theorem not_earlier_first : ¬ ∀ (cs : List Command) (ts : List TableId),
    (ts.map fun t => ((Host.initial.after cs).table t).title).Nodup → ∀ t ∈ ts, ∀ fs,
      (((Host.initial.after cs).table t).title, fs) ∈
        Signatures.ofTables (ts.map (Host.initial.after cs).table) →
      fs.Pairwise fun f g => f.signature = g.signature →
        Table.Earlier (Host.initial.registered t cs) f.key g.key := by
  intro h
  set cs : List Command := .newTable (some "m") :: arrows.map (.register 0) with hcs
  have hgroup :
      (((Host.initial.after cs).table 0).title, ((Host.initial.after cs).table 0).sorted) ∈
        Signatures.ofTables ([0].map (Host.initial.after cs).table) := by
    have hnodup : (([0].map (Host.initial.after cs).table).map Table.title).Nodup :=
      List.nodup_singleton _
    rw [Signatures.ofTables_of_nodup hnodup]
    exact List.mem_singleton_self _
  have hpair := h cs [0] (List.nodup_singleton _) 0 List.mem_cons_self _ hgroup
  -- the two functions of one signature, in the order of the table
  have hsame : (((Host.initial.after cs).table 0).sorted.filter fun f =>
      f.signature == "go() -> ()") =
      [⟨"go", [], true, some .unit, [], none⟩, ⟨"go() -> ", [], true, none, [], none⟩] := by
    rw [Table.filter_sorted]
    rfl
  have hfirst := hpair.filter fun f => f.signature == "go() -> ()"
  rw [hsame] at hfirst
  have hearlier : Table.Earlier arrows ⟨"go", []⟩ ⟨"go() -> ", []⟩ :=
    (List.pairwise_cons.mp hfirst).1 _ List.mem_cons_self rfl
  exact hearlier.asymm ⟨arrows.take 2, arrows.drop 2, rfl, by decide, by decide⟩

end Host
end ScriptHost
