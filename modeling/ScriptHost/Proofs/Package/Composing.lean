import ScriptHost.Proofs.Heap.Flatness
import ScriptHost.Proofs.Package.Texts

/-!
# Putting strings together

The string package has two functions that put a string and another text together: `+` answers with a
new string, and `append` replaces the string behind its receiver.  Each is registered for a
character and for a string as the other text, so there are four registrations.  Here is what one
invocation does, whatever else is in the heap.

* `Composing`: the two functions, with the registration (`entry`) and the native function (`native`)
  for each kind of text.
* `Composing.eq_of_toNative`, `Composing.eq_of_mem_entries`: the registrations make these functions
  and no other registration of the package has their names.
* `Linkage.invoke_composing`: what an invocation leaves, also where both arguments are one and the
  same container.
-/

namespace ScriptHost

open Heap

namespace Strings

/-- The functions that put a string and another text together. -/
inductive Composing where
  | append
  | join
  deriving DecidableEq

/-- The kinds of the other text. -/
def composedKinds : List Kind := [.char, .string]

namespace Composing

def name : Composing → String
  | .append => "append"
  | .join => "+"

/-- The registration for a kind of text. -/
def entry : Composing → Kind → Entry
  | .append, k =>
    Strings.entry none .method "append" appending [.receiver (some (.kind .string)), .kind k]
  | .join, k => Strings.entry none .pure "+" joining [.kind .string, .kind k]

/-- The function that the registration makes. -/
def native : Composing → Kind → Option EngineId → Native
  | .append, k, home => ⟨"append", [⟨"s", .string, .exclusive⟩, ⟨"tail", k, .value⟩], true,
      some .unit,
      [.run (.apply .assign [first, .apply .add [.apply .payload [first], .argument 1]])], home⟩
  | .join, k, home => ⟨"+", [⟨"s", .string, .value⟩, ⟨"tail", k, .value⟩], true, some .string,
      [.give (.apply .add [first, .argument 1])], home⟩

variable {b : Composing} {k l : Kind} {x : Entry} {f : Native} {limit : Except ConvertError Int}
  {home : Option EngineId}

theorem ne_dynamic_of_mem (hk : k ∈ composedKinds) : k ≠ .dynamic := by
  rintro rfl
  exact absurd hk (by decide)

theorem eq_of_toNative (hk : k ∈ composedKinds) (hf : (b.entry k).toNative limit home = .ok f) :
    f = b.native k home := by
  rw [composedKinds, List.mem_cons, List.mem_singleton] at hk
  rcases hk with rfl | rfl <;> cases b
  all_goals
    obtain ⟨g, hmade, harity⟩ := Except.bind_eq_ok.mp hf
    obtain ⟨given, hgiven, hcounted⟩ := Except.bind_eq_ok.mp hmade
    -- all that depends on the limit is whether the parameters may be as many
    obtain ⟨-, -, hshaped⟩ := Except.bind_eq_ok.mp hcounted
    obtain rfl := Except.ok.inj hgiven
    obtain rfl := Except.ok.inj hshaped
    exact (Except.ok.inj harity).symm

theorem mem_entries (b : Composing) (hk : k ∈ composedKinds) : b.entry k ∈ entries := by
  rw [composedKinds, List.mem_cons, List.mem_singleton] at hk
  refine List.mem_append_right _ ?_
  rcases hk with rfl | rfl <;> cases b <;> simp [entry]

/-- All registrations but the last four make texts of single values. -/
theorem text_or_composing :
    ∀ x ∈ entries, x.name ∈ textNames ∨ ∃ b, ∃ k ∈ composedKinds, x = entry b k := by
  rw [entries, List.forall_mem_append]
  refine ⟨fun x hx => .inl ((?texts : ∀ x ∈ _, x.name ∈ textNames) x hx), ?composing⟩
  case texts => decide +kernel
  case composing =>
    rw [List.forall_mem_cons, List.forall_mem_cons, List.forall_mem_cons, List.forall_mem_singleton]
    exact ⟨.inr ⟨.join, .char, by decide, rfl⟩, .inr ⟨.join, .string, by decide, rfl⟩,
      .inr ⟨.append, .char, by decide, rfl⟩, .inr ⟨.append, .string, by decide, rfl⟩⟩

theorem name_entry (b : Composing) (k : Kind) : (b.entry k).name = b.name := by
  cases b <;> rfl

theorem name_injective {b c : Composing} (h : b.name = c.name) : b = c := by
  cases b <;> cases c <;> first | rfl | exact absurd h (by decide)

/-- **The registrations of a composing function are those for the kinds of text.** -/
theorem eq_of_mem_entries (hx : x ∈ entries) (hname : x.name = b.name) :
    ∃ k ∈ composedKinds, x = b.entry k := by
  rcases text_or_composing x hx with htext | ⟨c, k, hk, rfl⟩
  · rw [hname] at htext
    cases b <;> exact absurd htext (by decide)
  · rw [name_entry] at hname
    exact ⟨k, hk, by rw [name_injective hname]⟩

end Composing

/-! ## Texts -/

theorem kind_mem_of_text? {x : Scalar} {text : String} (ht : x.text? = some text) :
    x.kind ∈ composedKinds := by
  cases x with
  | char c => exact List.mem_cons_self
  | string s => exact List.mem_cons_of_mem _ List.mem_cons_self
  | _ => exact absurd ht nofun

/-- A string and another text have their texts in a row as their sum. -/
theorem sum_string {s text : String} {x : Scalar} (ht : x.text? = some text) (h : Heap) :
    Operation.sum h (.string s) (.scalar x) = .ok (.string (s ++ text), h) := by
  cases x with
  | char c =>
    obtain rfl := Option.some.inj ht
    rfl
  | string s =>
    obtain rfl := Option.some.inj ht
    rfl
  | _ => exact absurd ht nofun

namespace Composing

/-- What the functions answer. -/
def answer (text : String) : Composing → Scalar
  | .append => .unit
  | .join => .string text

/-- An invocation for the container `a` answers with a new container, and the container `a` gets the
text if the function is the one that lengthens it.  No other container is touched. -/
structure Leaves (b : Composing) (text : String) (a : Addr) (h : Heap) (r : Addr) (h' : Heap) :
    Prop where
  fresh : h.size ≤ r
  answered : h'.get? r = some (.dynamic (.scalar (b.answer text)))
  written : b = .append → h'.get? a = some (.dynamic (.string text))
  others : ∀ c, c < h.size → (b = .append → c ≠ a) → h'.get? c = h.get? c

end Composing
end Strings

/-! ## Evaluation -/

section Evaluation

variable {frame : Frame} {h h₁ h₂ : Heap} {e : Expr} {es : List Expr} {op : Operation} {v : Value}
  {vs : List Value}

theorem Expr.eval_argument {i : Nat} (hv : frame.arguments[i]? = some v) :
    (Expr.argument i).eval frame h = some (.ok v, h) := by
  rw [Expr.eval, hv]
  rfl

theorem Expr.evalAll_cons (he : e.eval frame h = some (.ok v, h₁))
    (hes : Expr.evalAll frame es h₁ = some (.ok vs, h₂)) :
    Expr.evalAll frame (e :: es) h = some (.ok (v :: vs), h₂) := by
  simp only [Expr.evalAll, Run.bind_apply, he, hes]
  rfl

theorem Expr.eval_apply (hes : Expr.evalAll frame es h = some (.ok vs, h₁))
    (hop : op.run frame.places vs h₁ = .ok (v, h₂)) :
    (Expr.apply op es).eval frame h = some (.ok v, h₂) := by
  simp only [Expr.eval, Run.bind_apply, hes, Run.attempt, hop]

/-- An operation on two operands that leave the heap as it is. -/
theorem Expr.eval_apply₂ {d e : Expr} {w u : Value} (hd : d.eval frame h = some (.ok v, h))
    (he : e.eval frame h = some (.ok w, h)) (hop : op.run frame.places [v, w] h = .ok (u, h₁)) :
    (Expr.apply op [d, e]).eval frame h = some (.ok u, h₁) :=
  Expr.eval_apply (Expr.evalAll_cons hd (Expr.evalAll_cons he rfl)) hop

end Evaluation

/-! ## Invocations -/

section Invocation

variable {h h₁ : Heap} {a c : Addr} {v : Value} {x : Scalar} {s text : String} {p : Param}

theorem Param.bind_of_dynamic (hv : h.get? a = some (.dynamic v)) (hk : h.kindOf v = p.kind)
    (function : String) (position : Nat) :
    p.bind function position (.ref a) h = .ok (p.take a h) := by
  have hpayload : h.payload a = v := by rw [payload, hv]
  rw [Param.bind_eq, contain_of_dynamic hv, if_pos]
  exact isKind_iff.mpr (.inr (hpayload ▸ hk))

/-- A scalar that is passed by value reaches the body as it is. -/
theorem Param.bind_scalar (hx : h.get? a = some (.dynamic (.scalar x))) (name function : String)
    (position : Nat) : ∃ h', Extends h h' ∧
      (Param.mk name x.kind .value).bind function position (.ref a) h = .ok (.scalar x, h') := by
  have hpayload : h.payload a = .scalar x := by rw [payload, hx]
  have hcast : h.tryCast a x.kind = (some (.scalar x), (h.copy (.scalar x)).2) := by
    rw [tryCast_of_kindOf (scalar_kind_ne x) (by rw [hpayload]; rfl), hpayload]
    simp [copy, Value.rename]
  refine ⟨(h.copy (.scalar x)).2, extends_copy h _, ?_⟩
  rw [Param.bind_of_dynamic hx rfl]
  simp only [Param.take, hcast, Option.getD_some]

namespace Linkage

variable {link : Linkage} {depth : Nat}

/-- `+` gets the two texts. -/
theorem binds_join (home : Option EngineId) (hs : h.get? a = some (.dynamic (.string s)))
    (hx : h.get? c = some (.dynamic (.scalar x))) :
    ∃ h', Extends h h' ∧ (Strings.Composing.join.native x.kind home).Binds [.ref a, .ref c] h
      [.string s, .scalar x] h' := by
  obtain ⟨h₁, hext₁, hfirst⟩ := Param.bind_scalar (x := .string s) hs "s" "+" 1
  obtain ⟨h₂, hext₂, hsecond⟩ := Param.bind_scalar (hext₁.get?_eq_some hx) "tail" "+" 2
  refine ⟨h₂, hext₁.trans hext₂, rfl, ?_⟩
  have hfirst' : (Param.mk "s" .string .value).bind "+" 1 (.ref a) h = .ok (.string s, h₁) := hfirst
  simp only [Strings.Composing.native, bindAll_cons_apply, hfirst', hsecond]
  rfl

/-- `append` gets a handle onto the container of the string, and the other text. -/
theorem binds_append (home : Option EngineId) (hs : h.get? a = some (.dynamic (.string s)))
    (hx : h.get? c = some (.dynamic (.scalar x))) :
    ∃ h', Extends (h.alloc (.handle a)).2 h' ∧
      (Strings.Composing.append.native x.kind home).Binds [.ref a, .ref c] h
        [.ref h.size, .scalar x] h' := by
  have hfirst : (Param.mk "s" .string .exclusive).bind "append" 1 (.ref a) h =
      .ok (.ref h.size, (h.alloc (.handle a)).2) := Param.bind_of_dynamic hs rfl "append" 1
  obtain ⟨h₂, hext, hsecond⟩ := Param.bind_scalar
    ((extends_alloc h (.handle a)).get?_eq_some hx) "tail" "append" 2
  refine ⟨h₂, hext, rfl, ?_⟩
  simp only [Strings.Composing.native, bindAll_cons_apply, hfirst, hsecond]
  rfl

theorem invoke_join (home : Option EngineId) (hs : h.get? a = some (.dynamic (.string s)))
    (hx : h.get? c = some (.dynamic (.scalar x))) (ht : x.text? = some text) :
    ∃ r h', link.invoke (depth + 1) (Strings.Composing.join.native x.kind home) [.ref a, .ref c] h =
      some (.ok (.ref r), h') ∧ Strings.Composing.join.Leaves (s ++ text) a h r h' := by
  obtain ⟨h₁, hext, hbinds⟩ := binds_join home hs hx
  set f := Strings.Composing.join.native x.kind home with hf
  have hbody : Body.run (link.frame depth f [.string s, .scalar x]) f.body h₁ =
      some (.ok (.string (s ++ text)), h₁) :=
    Expr.eval_apply₂ (Expr.eval_argument rfl) (Expr.eval_argument rfl) (Strings.sum_string ht h₁)
  refine ⟨h₁.size, (h₁.alloc (.dynamic (.string (s ++ text)))).2, ?_, hext.size_le,
    get?_alloc_self h₁ _, nofun, fun b hb _ => ?_⟩
  · rw [invoke_of_binds hbinds, serve_apply, hbody]
    rfl
  · exact (hext.trans (extends_alloc h₁ _)).get?_eq b hb

/-- The body of `append` replaces the string behind its handle. -/
theorem run_append {frame : Frame} {slot : Addr} (hargs : frame.arguments = [.ref slot, .scalar x])
    (hslot : h.get? slot = some (.handle a)) (hs : h.get? a = some (.dynamic (.string s)))
    (ht : x.text? = some text) (k : Kind) (home : Option EngineId) :
    Body.run frame (Strings.Composing.append.native k home).body h =
      some (.ok .unit, h.set a (.dynamic (.string (s ++ text)))) := by
  have hcell : h.cell? (.ref slot) = some (slot, .handle a) := by
    rw [cell?, hslot]
    rfl
  have hfirst : Strings.first.eval frame h = some (.ok (.ref slot), h) :=
    Expr.eval_argument (by rw [hargs]; rfl)
  have hsecond : (Expr.argument 1).eval frame h = some (.ok (.scalar x), h) :=
    Expr.eval_argument (by rw [hargs]; rfl)
  have hpayload : (Expr.apply .payload [Strings.first]).eval frame h =
      some (.ok (.string s), h) := by
    refine Expr.eval_apply (Expr.evalAll_cons hfirst rfl) ?_
    rw [Operation.run, hcell]
    simp only [payload, hs]
  have hsum : (Expr.apply .add [.apply .payload [Strings.first], .argument 1]).eval frame h =
      some (.ok (.string (s ++ text)), h) :=
    Expr.eval_apply₂ hpayload hsecond (Strings.sum_string ht h)
  have hassign : (Expr.apply .assign [Strings.first,
        .apply .add [.apply .payload [Strings.first], .argument 1]]).eval frame h =
      some (.ok .unit, h.set a (.dynamic (.string (s ++ text)))) := by
    refine Expr.eval_apply₂ hfirst hsum ?_
    rw [Operation.run, hcell]
    rfl
  rw [Strings.Composing.native, Body.run, Run.bind_apply, hassign]
  rfl

theorem invoke_append (home : Option EngineId) (hs : h.get? a = some (.dynamic (.string s)))
    (hx : h.get? c = some (.dynamic (.scalar x))) (ht : x.text? = some text) :
    ∃ r h', link.invoke (depth + 1) (Strings.Composing.append.native x.kind home)
        [.ref a, .ref c] h = some (.ok (.ref r), h') ∧
      Strings.Composing.append.Leaves (s ++ text) a h r h' := by
  obtain ⟨h₁, hext, hbinds⟩ := binds_append home hs hx
  have hall : Extends h h₁ := (extends_alloc h _).trans hext
  have hargs : (link.frame depth (Strings.Composing.append.native x.kind home)
      [.ref h.size, .scalar x]).arguments = [.ref h.size, .scalar x] := rfl
  have hbody := run_append hargs (hext.get?_eq_some (get?_alloc_self h _)) (hall.get?_eq_some hs)
    ht x.kind home
  generalize hnew : Cell.dynamic (.string (s ++ text)) = new at hbody
  have hsize : h.size ≤ (h₁.set a new).size := (size_set h₁ a new).symm ▸ hall.size_le
  refine ⟨(h₁.set a new).size, ((h₁.set a new).alloc (.dynamic .unit)).2, ?_, hsize,
    get?_alloc_self _ _, fun _ => ?_, fun b hb hne => ?_⟩
  · rw [invoke_of_binds hbinds, serve_apply, hbody]
    rfl
  · have ha : a < h.size := lt_of_get? hs
    rw [get?_alloc_of_ne _ _ (Nat.ne_of_lt (Nat.lt_of_lt_of_le ha hsize)), hnew]
    exact get?_set_self (Nat.lt_of_lt_of_le ha hall.size_le) new
  · rw [get?_alloc_of_ne _ _ (Nat.ne_of_lt (Nat.lt_of_lt_of_le hb hsize)),
      get?_set_of_ne _ _ (hne rfl), hall.get?_eq b hb]

/-- **An invocation of a composing function succeeds**, and leaves what it says. -/
theorem invoke_composing (link : Linkage) (depth : Nat) (b : Strings.Composing)
    (home : Option EngineId) (hs : h.get? a = some (.dynamic (.string s)))
    (hx : h.get? c = some (.dynamic (.scalar x))) (ht : x.text? = some text) :
    ∃ r h', link.invoke (depth + 1) (b.native x.kind home) [.ref a, .ref c] h =
      some (.ok (.ref r), h') ∧ b.Leaves (s ++ text) a h r h' := by
  cases b with
  | append => exact invoke_append home hs hx ht
  | join => exact invoke_join home hs hx ht

variable {engine : EngineId} {tail : Value}

/-- **A call by name does so too**, whether the other text is in a container, which may be that of
the string, or bare. -/
theorem call_composing (link : Linkage) (depth : Nat) (b : Strings.Composing)
    {home : Option EngineId} (hfound : link.find engine b.name [.string, x.kind] = some (b.native x.kind home))
    (hs : h.get? a = some (.dynamic (.string s))) (hx : h.unwrap tail = .scalar x)
    (ht : x.text? = some text) :
    ∃ r h', link.call (depth + 1) engine b.name [.ref a, tail] h = some (.ok (.ref r), h') ∧
      b.Leaves (s ++ text) a h r h' := by
  have hext : Extends h (h.contain tail).2 := by
    rw [contain]
    split
    · exact .refl h
    · exact extends_alloc h _
  have hs₁ := hext.get?_eq_some hs
  have hx₁ := hx ▸ h.get?_contain tail
  have hkinds : kindsOf (h.contain tail).2 [.ref a, .ref (h.contain tail).1] =
      [.string, x.kind] := by
    simp only [kindsOf, List.map_cons, List.map_nil, unwrap_of_dynamic hs₁, unwrap_of_dynamic hx₁,
      payload, hs₁, hx₁]
    rfl
  have hfinds : link.Finds engine b.name [.ref a, tail] h (b.native x.kind home)
      [.ref a, .ref (h.contain tail).1] (h.contain tail).2 := by
    refine ⟨?_, hkinds ▸ hfound⟩
    simp only [containAll, Run.bind_apply, Run.contained, Run.step, contain_of_dynamic hs]
    rfl
  obtain ⟨r, h', hrun, hleaves⟩ := link.invoke_composing depth b home hs₁ hx₁ ht
  refine ⟨r, h', (call_of_finds hfinds).trans hrun, Nat.le_trans hext.size_le hleaves.fresh,
    hleaves.answered, hleaves.written, fun c hc hne => ?_⟩
  rw [hleaves.others c (Nat.lt_of_lt_of_le hc hext.size_le) hne, hext.get?_eq c hc]

end Linkage
end Invocation
end ScriptHost
