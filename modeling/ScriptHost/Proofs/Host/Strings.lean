import ScriptHost.Proofs.Host.Texts
import ScriptHost.Proofs.Package.Composing
import Mathlib.Data.List.Pairwise
import Mathlib.Logic.Function.Basic

/-!
# Building strings

A host builds strings by calls of `append` and `+`.  The containers that it works on may hold equal
strings, one container may be both arguments of a call, and the answers of calls are containers that
later calls may work on.  None of this matters: what the containers hold after any sequence of calls
is what a list of characters for each container says, to which the appended characters are added at
the end.

* `Call`, `Contents`, `follow`: the calls, and the lists of characters that they leave.
* `Fits`: each call of a sequence is for a string and another text, at the time when it is made;
  `fits_of_forall`: calls for what holds texts at the start fit in every order and number.
* `Host.StringsOnly`: an engine whose functions are those of the string package.
* `Host.StringsOnly.step`: one call on such an engine does what the lists say.
* `Host.StringsOnly.builds`: so does every sequence of calls that fits.
-/

namespace ScriptHost

open Heap

namespace Strings

/-! ## Lists of characters -/

/-- A container that calls work on: one that was there at the start, or the answer of a call. -/
inductive Slot where
  | held (a : Addr)
  | answer (i : Nat)
  deriving DecidableEq

/-- The text that a call takes besides its string. -/
inductive Tail where
  | slot (s : Slot)
  | plain (x : Scalar)

/-- A call of a composing function for the string in a container and another text. -/
structure Call where
  function : Composing
  slot : Slot
  tail : Tail

/-- What containers hold, where it is a scalar. -/
abbrev Contents := Slot → Option Scalar

variable {m : Contents} {i : Nat} {c : Call} {cs : List Call}

def Contents.ofTail (m : Contents) : Tail → Option Scalar
  | .slot s => m s
  | .plain x => some x

/-- The characters of a text; there are none where there is no text. -/
def chars (x : Option Scalar) : List Char := ((x.bind Scalar.text?).getD "").toList

namespace Call

/-- The characters of the string followed by those of the other text. -/
def text (m : Contents) (c : Call) : String := .ofList (chars (m c.slot) ++ chars (m.ofTail c.tail))

/-- What the containers hold after a call, the `i`-th of all: `append` changes the container of the
string, and either function puts its answer into a new one. -/
def follow (m : Contents) (i : Nat) (c : Call) : Contents :=
  let answered := Function.update m (.answer i) (some (c.function.answer (c.text m)))
  match c.function with
  | .append => Function.update answered c.slot (some (.string (c.text m)))
  | .join => answered

/-- The container holds a string, and the other text is a string or a character. -/
structure Fits (m : Contents) (c : Call) : Prop where
  slot : ∃ s, m c.slot = some (.string s)
  tail : ∃ x t, m.ofTail c.tail = some x ∧ x.text? = some t

end Call

/-- What the containers hold after calls in order, the first of them the `i`-th of all. -/
def follow (m : Contents) (i : Nat) : List Call → Contents
  | [] => m
  | c :: cs => follow (c.follow m i) (i + 1) cs

/-- Every call of a sequence fits at the time when it is made. -/
def Fits (m : Contents) (i : Nat) : List Call → Prop
  | [] => True
  | c :: cs => c.Fits m ∧ Fits (c.follow m i) (i + 1) cs

/-! ### What a call changes -/

/-- No answer of a call to come is known. -/
def Contents.Open (m : Contents) (i : Nat) : Prop := ∀ j, i ≤ j → m (.answer j) = none

theorem Call.Fits.slot_ne (hc : c.Fits m) (hm : m.Open i) {j : Nat} (hj : i ≤ j) :
    c.slot ≠ .answer j := by
  intro heq
  obtain ⟨s, hs⟩ := hc.slot
  rw [heq, hm j hj] at hs
  exact absurd hs nofun

theorem Call.follow_answer (hc : c.Fits m) (hm : m.Open i) :
    c.follow m i (.answer i) = some (c.function.answer (c.text m)) := by
  have hne := (hc.slot_ne hm (Nat.le_refl i)).symm
  rw [Call.follow]
  cases c.function with
  | append =>
    dsimp only
    rw [Function.update_of_ne hne, Function.update_self]
  | join => exact Function.update_self ..

/-- The container of the string holds the text if the function is the one that lengthens it. -/
theorem Call.follow_slot (hfunction : c.function = .append) :
    c.follow m i c.slot = some (.string (c.text m)) := by
  rw [Call.follow, hfunction]
  exact Function.update_self ..

/-- All other containers hold what they held. -/
theorem Call.follow_of_ne {slot : Slot} (hanswer : slot ≠ .answer i)
    (hslot : c.function = .append → slot ≠ c.slot) : c.follow m i slot = m slot := by
  rw [Call.follow]
  cases hfunction : c.function with
  | append =>
    dsimp only
    rw [Function.update_of_ne (hslot hfunction), Function.update_of_ne hanswer]
  | join => exact Function.update_of_ne hanswer ..

theorem Call.Fits.open_follow (hc : c.Fits m) (hm : m.Open i) :
    (c.follow m i).Open (i + 1) := by
  intro j hj
  have hne : Slot.answer j ≠ .answer i := fun h => absurd (Slot.answer.inj h) (by omega)
  rw [Call.follow_of_ne hne fun _ => (hc.slot_ne hm (by omega)).symm]
  exact hm j (by omega)

/-- A container of a text still holds a text after a call, and one of a string a string. -/
theorem Call.follow_of_text (hm : m.Open i) {slot : Slot} {x : Scalar} (hx : m slot = some x) :
    c.follow m i slot = some x ∨ ∃ s, c.follow m i slot = some (.string s) := by
  have hanswer : slot ≠ .answer i := by
    rintro rfl
    rw [hm i (Nat.le_refl i)] at hx
    exact absurd hx nofun
  by_cases hslot : c.function = .append ∧ slot = c.slot
  · exact .inr ⟨_, hslot.2 ▸ Call.follow_slot hslot.1⟩
  · exact .inl ((Call.follow_of_ne hanswer fun h hs => hslot ⟨h, hs⟩).trans hx)

theorem Call.Fits.follow {d : Call} (hd : d.Fits m) (hm : m.Open i) : d.Fits (c.follow m i) := by
  refine ⟨?_, ?_⟩
  · obtain ⟨s, hs⟩ := hd.slot
    rcases Call.follow_of_text (c := c) hm hs with h | h
    · exact ⟨s, h⟩
    · exact h
  · obtain ⟨x, t, hx, ht⟩ := hd.tail
    cases htail : d.tail with
    | plain y =>
      rw [htail] at hx
      exact ⟨x, t, hx, ht⟩
    | slot slot =>
      rw [htail] at hx
      rcases Call.follow_of_text (c := c) hm hx with h | ⟨s, h⟩
      · exact ⟨x, t, h, ht⟩
      · exact ⟨.string s, s, h, rfl⟩

/-- **Calls that fit at the start fit at all times**, whatever is called before them. -/
theorem fits_of_forall (hm : m.Open i) (hcs : ∀ c ∈ cs, c.Fits m) : Fits m i cs := by
  induction cs generalizing m i with
  | nil => trivial
  | cons c cs ih =>
    obtain ⟨hc, hrest⟩ := List.forall_mem_cons.mp hcs
    exact ⟨hc, ih (hc.open_follow hm) fun d hd => (hrest d hd).follow hm⟩

/-- What is no string is never changed. -/
theorem follow_of_ne_string {slot : Slot} {x : Scalar} (hx : m slot = some x)
    (hstring : ∀ s, x ≠ .string s) (hm : m.Open i) (hfits : Fits m i cs) :
    follow m i cs slot = some x := by
  induction cs generalizing m i with
  | nil => exact hx
  | cons c cs ih =>
    obtain ⟨hc, hrest⟩ := hfits
    have hanswer : slot ≠ .answer i := by
      rintro rfl
      rw [hm i (Nat.le_refl i)] at hx
      exact absurd hx nofun
    have hslot : slot ≠ c.slot := by
      rintro rfl
      obtain ⟨s, hs⟩ := hc.slot
      exact hstring s (Option.some.inj (hx.symm.trans hs))
    refine ih ?_ (hc.open_follow hm) hrest
    exact (Call.follow_of_ne hanswer fun _ => hslot).trans hx

/-- The answer of a call that lengthens a string is unit, and stays so. -/
theorem follow_answer_append (hm : m.Open i) (hfits : Fits m i cs) {j : Nat}
    (hj : cs[j]? = some c) (hfunction : c.function = .append) :
    follow m i cs (.answer (i + j)) = some .unit := by
  induction cs generalizing m i j with
  | nil => exact absurd hj nofun
  | cons d cs ih =>
    obtain ⟨hd, hrest⟩ := hfits
    cases j with
    | zero =>
      obtain rfl : d = c := Option.some.inj hj
      have hanswer := Call.follow_answer hd hm
      rw [hfunction] at hanswer
      show follow (d.follow m i) (i + 1) cs (.answer i) = some .unit
      exact follow_of_ne_string hanswer nofun (hd.open_follow hm) hrest
    | succ j =>
      have hnext := ih (hd.open_follow hm) hrest hj
      rw [show i + (j + 1) = i + 1 + j by omega]
      exact hnext

/-! ## Contents of a heap -/

/-- Where a container is, if there were so many cells at the start and these are the answers so
far. -/
def Slot.addr? (n : Nat) (answers : List Addr) : Slot → Option Addr
  | .held a => if a < n then some a else none
  | .answer i => answers[i]?

/-- The value that a container is given to a call as. -/
def Slot.value (answers : List Value) : Slot → Value
  | .held a => .ref a
  | .answer i => answers[i]?.getD .unit

/-- The value that a text is given to a call as. -/
def Tail.value (answers : List Value) : Tail → Value
  | .slot s => s.value answers
  | .plain x => .scalar x

end Strings

/-- The scalar in the container at an address. -/
def Heap.scalar? (h : Heap) (a : Addr) : Option Scalar :=
  match h.get? a with
  | some (.dynamic (.scalar x)) => some x
  | _ => none

/-- What the containers hold. -/
def Heap.contents (h : Heap) (n : Nat) (answers : List Addr) : Strings.Contents :=
  fun slot => (slot.addr? n answers).bind h.scalar?

/-- The answers are containers of their own, none of which was there at the start. -/
structure Heap.Separate (h : Heap) (n : Nat) (answers : List Addr) : Prop where
  size_le : n ≤ h.size
  fresh : ∀ r ∈ answers, n ≤ r ∧ r < h.size
  distinct : answers.Nodup

namespace Strings

variable {h h' : Heap} {n : Nat} {answers : List Addr} {a b r : Addr} {slot : Slot} {x : Scalar}
  {c : Call}

theorem scalar?_eq_some_iff : h.scalar? a = some x ↔ h.get? a = some (.dynamic (.scalar x)) := by
  rw [scalar?]
  split
  · rename_i y hy
    rw [hy]
    simp
  · rename_i hother
    constructor
    · exact fun h => absurd h nofun
    · exact fun h => absurd h (hother x)

theorem contents_eq_some_iff :
    h.contents n answers slot = some x ↔
      ∃ a, slot.addr? n answers = some a ∧ h.get? a = some (.dynamic (.scalar x)) := by
  rw [contents, Option.bind_eq_some_iff]
  simp only [scalar?_eq_some_iff]

theorem open_contents (h : Heap) (n : Nat) (answers : List Addr) :
    (h.contents n answers).Open answers.length := by
  intro j hj
  rw [contents, Slot.addr?, List.getElem?_eq_none hj]
  rfl

theorem value_of_addr? (ha : slot.addr? n answers = some a) :
    slot.value (answers.map .ref) = .ref a := by
  cases slot with
  | held b =>
    rw [Slot.addr?] at ha
    split at ha
    · rw [← Option.some.inj ha]
      rfl
    · exact absurd ha nofun
  | answer i =>
    rw [Slot.addr?] at ha
    rw [Slot.value, List.getElem?_map, ha]
    rfl

/-- Containers at one address are one. -/
theorem eq_of_addr? (hseparate : h.Separate n answers) {slot' : Slot}
    (ha : slot.addr? n answers = some a) (ha' : slot'.addr? n answers = some a) : slot = slot' := by
  have hheld {b : Addr} (hb : (Slot.held b).addr? n answers = some a) : b = a ∧ a < n := by
    rw [Slot.addr?] at hb
    split at hb
    · rename_i hlt
      obtain rfl := Option.some.inj hb
      exact ⟨rfl, hlt⟩
    · exact absurd hb nofun
  have hanswer {i : Nat} (hi : (Slot.answer i).addr? n answers = some a) : n ≤ a :=
    (hseparate.fresh a (List.mem_of_getElem? hi)).1
  cases slot with
  | held b =>
    obtain ⟨rfl, hlt⟩ := hheld ha
    cases slot' with
    | held d => rw [(hheld ha').1]
    | answer j => exact absurd hlt (Nat.not_lt.mpr (hanswer ha'))
  | answer i =>
    cases slot' with
    | held d => exact absurd (hheld ha').2 (Nat.not_lt.mpr (hanswer ha))
    | answer j =>
      have hi : i < answers.length := (List.getElem?_eq_some_iff.mp ha).1
      rw [(List.getElem?_inj hi hseparate.distinct).mp (Eq.trans ha ha'.symm)]

/-- A new answer is one more container. -/
theorem addr?_concat (slot : Slot) :
    slot.addr? n (answers ++ [r]) =
      if slot = .answer answers.length then some r else slot.addr? n answers := by
  cases slot with
  | held b => rw [if_neg nofun, Slot.addr?, Slot.addr?]
  | answer i =>
    simp only [Slot.addr?, Slot.answer.injEq]
    rcases Nat.lt_trichotomy i answers.length with hi | rfl | hi
    · rw [if_neg (Nat.ne_of_lt hi), List.getElem?_append_left hi]
    · rw [if_pos rfl, List.getElem?_concat_length]
    · rw [if_neg (Nat.ne_of_gt hi), List.getElem?_eq_none (Nat.le_of_lt hi),
        List.getElem?_eq_none (by rw [List.length_append]; exact hi)]

theorem lt_of_addr? (hseparate : h.Separate n answers) (ha : slot.addr? n answers = some a) :
    a < h.size := by
  cases slot with
  | held b =>
    rw [Slot.addr?] at ha
    split at ha
    · rename_i hlt
      obtain rfl := Option.some.inj ha
      exact Nat.lt_of_lt_of_le hlt hseparate.size_le
    · exact absurd ha nofun
  | answer i => exact (hseparate.fresh a (List.mem_of_getElem? ha)).2

theorem separate_concat (hseparate : h.Separate n answers) (hsize : h.size ≤ h'.size)
    (hr : h.size ≤ r) (hr' : r < h'.size) : h'.Separate n (answers ++ [r]) where
  size_le := Nat.le_trans hseparate.size_le hsize
  fresh b hb := by
    rcases List.mem_append.mp hb with hb | hb
    · obtain ⟨hle, hlt⟩ := hseparate.fresh b hb
      exact ⟨hle, Nat.lt_of_lt_of_le hlt hsize⟩
    · rw [List.mem_singleton.mp hb]
      exact ⟨Nat.le_trans hseparate.size_le hr, hr'⟩
  distinct := by
    refine List.nodup_append.mpr ⟨hseparate.distinct, List.nodup_singleton r, ?_⟩
    rintro b hb d hd rfl
    rw [List.mem_singleton.mp hd] at hb
    exact absurd (hseparate.fresh r hb).2 (Nat.not_lt.mpr hr)

/-- **What a composing function leaves is what the lists of characters say.** -/
theorem contents_of_leaves (hseparate : h.Separate n answers) (hc : c.Fits (h.contents n answers))
    (ha : c.slot.addr? n answers = some a)
    (hleaves : c.function.Leaves (c.text (h.contents n answers)) a h r h') :
    h'.contents n (answers ++ [r]) = c.follow (h.contents n answers) answers.length := by
  have hopen := open_contents h n answers
  funext slot
  rw [contents, addr?_concat]
  by_cases hanswer : slot = .answer answers.length
  · rw [if_pos hanswer, hanswer, Call.follow_answer hc hopen]
    exact scalar?_eq_some_iff.mpr hleaves.answered
  · rw [if_neg hanswer]
    by_cases hslot : c.function = .append ∧ slot = c.slot
    · obtain ⟨hfunction, rfl⟩ := hslot
      rw [ha, Call.follow_slot hfunction]
      exact scalar?_eq_some_iff.mpr (hleaves.written hfunction)
    · rw [Call.follow_of_ne hanswer fun hfunction heq => hslot ⟨hfunction, heq⟩, contents]
      refine Option.bind_congr fun b hb => ?_
      have hne : c.function = .append → b ≠ a := by
        rintro hfunction rfl
        exact hslot ⟨hfunction, eq_of_addr? hseparate hb ha⟩
      rw [scalar?, scalar?, hleaves.others b (lt_of_addr? hseparate hb) hne]

/-- What `append` and `+` get of a text is the scalar that it is … -/
theorem unwrap_tail {tail : Tail} (hx : (h.contents n answers).ofTail tail = some x) :
    h.unwrap (tail.value (answers.map .ref)) = .scalar x := by
  cases tail with
  | plain y =>
    obtain rfl : y = x := Option.some.inj hx
    rfl
  | slot slot =>
    obtain ⟨a, ha, hcell⟩ := contents_eq_some_iff.mp hx
    rw [Tail.value, value_of_addr? ha, unwrap_of_dynamic hcell, payload, hcell]

/-- … and the characters of both in a row are the two texts in a row. -/
theorem text_eq {m : Contents} {s t : String} (hs : m c.slot = some (.string s))
    (hx : m.ofTail c.tail = some x) (ht : x.text? = some t) : c.text m = s ++ t := by
  have hfirst : chars (m c.slot) = s.toList := by rw [hs]; rfl
  have hsecond : chars (m.ofTail c.tail) = t.toList := by
    rw [hx, chars, Option.bind_some, ht]
    rfl
  rw [Call.text, hfirst, hsecond, String.ofList_append, String.ofList_toList, String.ofList_toList]

end Strings

/-! ## Engines with the functions of the package -/

namespace Table

variable {t : Table} {name : String} {kinds : List Kind} {f : Native}

theorem mem_of_find? (hf : t.find? name kinds = some f) :
    f ∈ t.functions ∧ f.name = name ∧ f.Accepts kinds := by
  rw [find?_eq_fewestWildcards, Native.fewestWildcards_eq_some_iff] at hf
  obtain ⟨hmem, hfits⟩ := List.mem_filter.mp hf.mem
  obtain ⟨hmem, hname⟩ := List.mem_filter.mp hmem
  exact ⟨hmem, beq_iff_eq.mp hname, Native.fits_iff.mp hfits⟩

theorem isSome_find? (hmem : f ∈ t.functions) (haccepts : f.Accepts kinds) :
    (t.find? f.name kinds).isSome := by
  rw [Option.isSome_iff_ne_none, find?_eq_fewestWildcards, Ne, Native.fewestWildcards_eq_none_iff]
  refine List.ne_nil_of_mem (a := f) (List.mem_filter.mpr ⟨?_, Native.fits_iff.mpr haccepts⟩)
  exact List.mem_filter.mpr ⟨hmem, beq_self_eq_true _⟩

end Table

namespace Host

variable {s : Host} {e : EngineId}

/-- The functions that calls on an engine can run are those of the string package: there are no
others, and those that need no feature are there. -/
structure StringsOnly (s : Host) (e : EngineId) : Prop where
  only : ∀ t ∈ s.tablesOf e, ∀ f ∈ t.functions,
    ∃ x ∈ Strings.entries, ∃ limit home, x.toNative limit home = .ok f
  all : ∀ x ∈ Strings.entries, x.condition = none → ∃ t ∈ s.tablesOf e, ∃ f ∈ t.functions,
    ∃ limit home g, x.toNative limit home = .ok g ∧ f.key = g.key

/-- A new engine that has been made with the string package is one of these. -/
theorem Fresh.stringsOnly {fs : Features} (hs : Fresh fs e s) : s.StringsOnly e := by
  obtain ⟨natives, hequipped⟩ := hs.equipped
  obtain ⟨limit, hmade⟩ := hequipped.made
  obtain ⟨own, t, hengine, hown, ht⟩ := hequipped.tables
  have htables : s.tablesOf e = [s.table own, s.table t] := by
    rw [tablesOf, hengine]
    rfl
  obtain ⟨hmakes, hmadeBy⟩ := Strings.exists_of_forall₂ hmade
  refine ⟨fun u hu f hf => ?_, fun x hx hcondition => ?_⟩
  · rw [htables, List.mem_cons, List.mem_singleton] at hu
    rcases hu with rfl | rfl
    · rw [hown] at hf
      exact absurd hf List.not_mem_nil
    · rw [ht] at hf
      obtain ⟨x, hx, hmake⟩ := hmadeBy f (Table.mem_entered_iff.mp hf).mem
      exact ⟨x, (List.mem_filter.mp hx).1, limit, none, hmake⟩
  · have happlies : x.applies fs = true := by rw [Entry.applies, hcondition]
    obtain ⟨g, hg, hmake⟩ := hmakes x (List.mem_filter.mpr ⟨hx, happlies⟩)
    -- a later registration may have replaced the function, but not its key
    obtain ⟨f, hf, hkey⟩ := Table.exists_latest hg
    refine ⟨s.table t, by simp [htables], f, ht ▸ Table.mem_entered_iff.mpr hf, ?_⟩
    exact ⟨limit, none, g, hmake, hkey⟩

open Strings in
/-- Calls of a composing function for a string and another text run that function. -/
theorem StringsOnly.resolve (hs : s.StringsOnly e) (b : Composing) {k : Kind}
    (hk : k ∈ composedKinds) : ∃ home, s.resolve e b.name [.string, k] = some (b.native k home) := by
  have hkinds (b : Composing) (k : Kind) (home : Option EngineId) :
      (b.native k home).kinds = [.string, k] ∧ (b.native k home).name = b.name := by
    cases b <;> exact ⟨rfl, rfl⟩
  have hfound : (s.resolve e b.name [.string, k]).isSome := by
    have hcondition : (b.entry k).condition = none := by cases b <;> rfl
    obtain ⟨t, ht, f, hf, limit, home, g, hmake, hkey⟩ :=
      hs.all _ (b.mem_entries hk) hcondition
    obtain rfl := Composing.eq_of_toNative hk hmake
    obtain ⟨hname, hsame⟩ := Table.key_eq_iff.mp hkey
    rw [(hkinds b k home).1] at hsame
    rw [(hkinds b k home).2] at hname
    have hsome := Table.isSome_find? hf f.accepts_kinds
    rw [hname, hsame] at hsome
    rw [Host.resolve, Table.findIn?, List.findSome?_isSome_iff]
    exact ⟨t, ht, hsome⟩
  obtain ⟨f, hf⟩ := Option.isSome_iff_exists.mp hfound
  obtain ⟨t, ht, hfind⟩ := List.exists_of_findSome?_eq_some hf
  obtain ⟨hmem, hname, haccepts⟩ := Table.mem_of_find? hfind
  obtain ⟨x, hx, limit, home, hmake⟩ := hs.only t ht f hmem
  obtain ⟨l, hl, rfl⟩ := Composing.eq_of_mem_entries hx
    ((Entry.name_of_toNative hmake).1.symm.trans hname)
  obtain rfl := Composing.eq_of_toNative hl hmake
  rw [Native.Accepts, (hkinds b l home).1] at haccepts
  have hlk : l = k := by
    have hsecond := (List.forall₂_cons.mp (List.forall₂_cons.mp haccepts).2).1
    exact hsecond.resolve_left (Composing.ne_dynamic_of_mem hl)
  exact ⟨home, hlk ▸ hf⟩

end Host

/-! ## Calls -/

/-- Makes calls in order, each for what was there or for what the calls before it have answered. -/
def Act.compose (e : EngineId) : List Value → List Strings.Call → Act (List Value)
  | answers, [] => pure answers
  | answers, c :: cs => do
    let r ← call e c.function.name [c.slot.value answers, c.tail.value answers]
    compose e (answers ++ [r]) cs

namespace Strings

/-- What calls have left, where `h₀` was there at the start. -/
structure Built (h₀ : Heap) (cs : List Call) (answers : List Addr) (h : Heap) : Prop where
  /-- Each call has answered with a container of its own. -/
  length : answers.length = cs.length
  separate : h.Separate h₀.size answers
  /-- The containers hold what the lists of characters say. -/
  contents : h.contents h₀.size answers = follow (h₀.contents h₀.size []) 0 cs
  /-- Where a string was lengthened, the answer is unit. -/
  units : ∀ (i : Nat) (c : Call) (r : Addr), cs[i]? = some c → c.function = .append →
    answers[i]? = some r → h.get? r = some (.dynamic .unit)
  /-- Nothing else has changed of what was there. -/
  kept : ∀ a, a < h₀.size → (∀ c ∈ cs, c.function = .append → c.slot ≠ .held a) →
    h.get? a = h₀.get? a

end Strings

namespace Host

variable {s : Host} {e : EngineId} {n : Nat} {answers : List Addr} {c : Strings.Call}
  {cs : List Strings.Call}

/-- **One call** that fits succeeds and leaves what the composing function says. -/
theorem StringsOnly.step (hs : s.StringsOnly e) (hc : c.Fits (s.heap.contents n answers)) :
    ∃ a r h, c.slot.addr? n answers = some a ∧
      Act.call e c.function.name
        [c.slot.value (answers.map .ref), c.tail.value (answers.map .ref)] s =
        (.ok (.ref r), { s with heap := h }) ∧
      c.function.Leaves (c.text (s.heap.contents n answers)) a s.heap r h := by
  obtain ⟨text, htext⟩ := hc.slot
  obtain ⟨x, t, hx, ht⟩ := hc.tail
  obtain ⟨a, ha, hcell⟩ := Strings.contents_eq_some_iff.mp htext
  obtain ⟨home, hfound⟩ := hs.resolve c.function (Strings.kind_mem_of_text? ht)
  obtain ⟨depth, hdepth⟩ : ∃ depth, callDepth = depth + 1 := ⟨_, rfl⟩
  obtain ⟨r, h, hrun, hleaves⟩ := s.linkage.call_composing depth c.function hfound hcell
    (Strings.unwrap_tail hx) ht
  refine ⟨a, r, h, ha, ?_, Strings.text_eq htext hx ht ▸ hleaves⟩
  rw [Strings.value_of_addr? ha]
  have hcall : Act.call e c.function.name [.ref a, c.tail.value (answers.map .ref)] s =
      Act.run (s.linkage.call callDepth e c.function.name
        [.ref a, c.tail.value (answers.map .ref)]) s := rfl
  rw [hcall, Act.run, hdepth, hrun]

/-- The containers of the answers stay apart, and the new one is apart from them. -/
theorem separate_of_leaves {h : Heap} {a r : Addr} {text : String}
    (hseparate : s.heap.Separate n answers) (hleaves : c.function.Leaves text a s.heap r h) :
    h.Separate n (answers ++ [r]) := by
  have hr : r < h.size := lt_of_get? hleaves.answered
  exact Strings.separate_concat hseparate (Nat.le_trans hleaves.fresh (Nat.le_of_lt hr))
    hleaves.fresh hr

/-- The induction is on the calls still to come; what the containers hold is carried along. -/
theorem StringsOnly.composes (hs : s.StringsOnly e) (hseparate : s.heap.Separate n answers)
    (hfits : Strings.Fits (s.heap.contents n answers) answers.length cs) :
    ∃ all h, Act.compose e (answers.map .ref) cs s = (.ok (all.map .ref), { s with heap := h }) ∧
      all.length = answers.length + cs.length ∧ h.Separate n all ∧
      h.contents n all = Strings.follow (s.heap.contents n answers) answers.length cs ∧
      ∀ a, a < n → (∀ c ∈ cs, c.function = .append → c.slot ≠ .held a) →
        h.get? a = s.heap.get? a := by
  induction cs generalizing s answers with
  | nil => exact ⟨answers, s.heap, rfl, rfl, hseparate, rfl, fun _ _ _ => rfl⟩
  | cons c cs ih =>
    obtain ⟨hc, hrest⟩ := hfits
    obtain ⟨a, r, h₁, ha, hcall, hleaves⟩ := hs.step hc
    have hcontents := Strings.contents_of_leaves hseparate hc ha hleaves
    have hlength : (answers ++ [r]).length = answers.length + 1 := List.length_append
    have hs₁ : StringsOnly { s with heap := h₁ } e := ⟨hs.only, hs.all⟩
    rw [← hcontents, ← hlength] at hrest
    obtain ⟨all, h, hrun, hcount, hseparate', hfinal, hkept⟩ :=
      ih hs₁ (separate_of_leaves hseparate hleaves) hrest
    refine ⟨all, h, ?_, ?_, hseparate', ?_, fun b hb hother => ?_⟩
    · rw [List.map_append, List.map_singleton] at hrun
      rw [Act.compose, Act.bind_apply, hcall]
      exact hrun
    · rw [hcount, hlength, List.length_cons]
      omega
    · rw [hfinal, hcontents, hlength]
      rfl
    · obtain ⟨hfirst, hothers⟩ := List.forall_mem_cons.mp hother
      have hne : c.function = .append → b ≠ a := by
        rintro hfunction rfl
        refine hfirst hfunction (Strings.eq_of_addr? hseparate ha ?_)
        rw [Strings.Slot.addr?, if_pos hb]
      rw [hkept b hb hothers]
      exact hleaves.others b (Nat.lt_of_lt_of_le hb hseparate.size_le) hne

/-- **Strings are built as lists of characters are.**  On an engine with the functions of the string
package and no others, every sequence of calls of `append` and `+` that are for a string and another
text succeeds, and nothing of the state changes but the heap.  What the containers hold in the end,
those of the answers included, is what comes of adding characters to the ends of lists. -/
theorem StringsOnly.builds (hs : s.StringsOnly e)
    (hfits : Strings.Fits (s.heap.contents s.heap.size []) 0 cs) :
    ∃ answers h, Act.compose e [] cs s = (.ok (answers.map .ref), { s with heap := h }) ∧
      Strings.Built s.heap cs answers h := by
  have hseparate : s.heap.Separate s.heap.size [] := ⟨Nat.le_refl _, nofun, List.nodup_nil⟩
  obtain ⟨answers, h, hrun, hcount, hseparate', hcontents, hkept⟩ := hs.composes hseparate hfits
  refine ⟨answers, h, hrun, ?_, hseparate', hcontents, fun i c r hi hfunction hr => ?_, hkept⟩
  · rw [hcount, List.length_nil, Nat.zero_add]
  · have hunit := Strings.follow_answer_append (Strings.open_contents s.heap s.heap.size []) hfits
      hi hfunction
    have hlast : h.contents s.heap.size answers (.answer i) = some .unit := by
      rw [hcontents]
      exact (Nat.zero_add i ▸ hunit :)
    obtain ⟨a, ha, hcell⟩ := Strings.contents_eq_some_iff.mp hlast
    obtain rfl : r = a := Option.some.inj (hr.symm.trans ha)
    exact hcell

/-- Calls for two containers of equal strings and one of a character: a string is appended to
itself, and the answer of a call is appended to. -/
def spelling : List Strings.Call :=
  [⟨.append, .held 0, .slot (.held 0)⟩, ⟨.append, .held 0, .slot (.held 2)⟩,
    ⟨.join, .held 1, .slot (.held 0)⟩, ⟨.append, .answer 2, .plain (.char '!')⟩]

theorem builds_spelling :
    ∃ s, s.StringsOnly 0 ∧
      s.heap = ⟨#[.dynamic (.string "ab"), .dynamic (.string "ab"),
        .dynamic (.scalar (.char 'c'))], 0⟩ ∧
      Strings.Fits (s.heap.contents s.heap.size []) 0 spelling ∧
      ∃ answers h, Act.compose 0 [] spelling s = (.ok (answers.map .ref), { s with heap := h }) ∧
        Strings.Built s.heap spelling answers h ∧
        h.contents 3 answers (.held 0) = some (.string "ababc") ∧
        h.contents 3 answers (.held 1) = some (.string "ab") ∧
        h.contents 3 answers (.answer 2) = some (.string "abababc!") := by
  obtain ⟨s, hfresh, hempty, -⟩ := exists_fresh
  have hbuild (d : Datum) {s : Host} (hs : Fresh .all 0 s) :
      Fresh .all 0 ((Command.build d).apply s) := hs.later trivial (.inr (.inl rfl))
  set s' := (Command.build (.dynamic (.scalar (.char 'c')))).apply
    ((Command.build (.dynamic (.scalar (.string "ab")))).apply
      ((Command.build (.dynamic (.scalar (.string "ab")))).apply s)) with hs'
  have hstrings : s'.StringsOnly 0 := (hbuild _ (hbuild _ (hbuild _ hfresh))).stringsOnly
  have hheap : s'.heap = ⟨#[.dynamic (.string "ab"), .dynamic (.string "ab"),
      .dynamic (.scalar (.char 'c'))], 0⟩ := by
    rw [hs']
    show ((((s.heap.build _).2).build _).2.build _).2 = _
    rw [hempty]
    rfl
  have hfits : Strings.Fits (s'.heap.contents s'.heap.size []) 0 spelling := by
    rw [hheap]
    exact ⟨⟨⟨"ab", by decide +kernel⟩, .string "ab", "ab", by decide +kernel, rfl⟩,
      ⟨⟨"abab", by decide +kernel⟩, .char 'c', "c", by decide +kernel, by decide +kernel⟩,
      ⟨⟨"ab", by decide +kernel⟩, .string "ababc", "ababc", by decide +kernel, rfl⟩,
      ⟨⟨"abababc", by decide +kernel⟩, .char '!', "!", rfl, by decide +kernel⟩, trivial⟩
  obtain ⟨answers, h, hrun, hbuilt⟩ := hstrings.builds hfits
  have hcontents := hbuilt.contents
  have hsize : s'.heap.size = 3 := by rw [hheap]; rfl
  rw [hsize, hheap] at hcontents
  refine ⟨s', hstrings, hheap, hfits, answers, h, hrun, hbuilt, ?_, ?_, ?_⟩
  all_goals
    rw [hcontents]
    decide +kernel

end Host
end ScriptHost
