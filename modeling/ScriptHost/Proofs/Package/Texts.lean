import ScriptHost.Proofs.Call.Failure
import ScriptHost.Proofs.Function.Receiver
import ScriptHost.Proofs.Heap.TextForms
import ScriptHost.Proofs.Table.Overloads
import ScriptHost.Package.Strings

/-!
# The texts of the string package

The string package registers `print`, `to_string` and `debug` once for every kind of value whose
feature is on, by several routes: most kinds are shown in the form asked for, arrays and maps in a
debug form, unit by the empty string and a string by itself.  Whatever the route, the function that
a kind is registered with gives the display form of the value, or its debug form, with a mark for
maps.

* `Strings.hasText`: the kinds that have a text under given features; `Strings.formFor`: the form.
* `Strings.Renders`: an expression gives the text of its argument in a form.
* `Native.Writes`: a function of one parameter does.
* `Strings.accounted_entries`: what every registration of the package makes.
* `Strings.find?_of_made`: a table that holds its functions finds one of these for every kind that
  has a text, and none for any other kind.
-/

namespace ScriptHost

open Heap

namespace Strings

/-- The names of the functions that make texts. -/
def textNames : List String := [printName, toStringName, debugName]

/-- Whether values of a kind have a text under some features. -/
def hasText (fs : Features) : Kind → Bool
  | .unit | .bool | .int | .char | .string => true
  | .sized _ => fs.has .sizedIntegers
  | .float | .single => fs.has .floatingPoint
  | .array => fs.has .arrays
  | .map => fs.has .objectMaps
  | _ => false

theorem ne_dynamic_of_hasText {fs : Features} {k : Kind} (hk : hasText fs k = true) :
    k ≠ .dynamic := by
  rintro rfl
  exact Bool.false_ne_true hk

/-- The form that a function shows values of a kind in. -/
def formFor (name : String) (k : Kind) : TextForm :=
  if name = debugName then (if k = .map then .markedDebug else .debug) else .display

/-! ## Expressions -/

/-- On a value of the kind, the expression gives its text in the form, or fails as that does, and
leaves the heap as it is. -/
def Renders (e : Expr) (k : Kind) (form : TextForm) : Prop :=
  ∀ (frame : Frame) (h : Heap) (v : Value), frame.arguments = [v] → h.Holds v → h.kindOf v = k →
    e.eval frame h = match h.formText frame.places form v with
      | .ok t => some (.ok (.string t), h)
      | .error c => some (.error (.ofConvert c), h)

variable {e : Expr} {k : Kind} {form form' : TextForm} {h : Heap} {v : Value} {fs : Features}
  {places : Precision}

theorem renders_text (k : Kind) (form : TextForm) :
    Renders (.apply (.text form) [first]) k form := by
  intro frame h v hargs _ _
  have hfirst : Expr.evalAll frame [first] h = some (.ok [v], h) := by
    rw [Expr.evalAll, Run.bind_apply, first, Expr.eval, hargs]
    rfl
  rw [Expr.eval, Run.bind_apply, hfirst]
  simp only [Run.attempt, Operation.run]
  cases h.formText frame.places form v <;> rfl

/-- Forms that show the values of a kind alike are as good as each other. -/
theorem Renders.congr (he : Renders e k form)
    (hforms : ∀ (h : Heap) (v : Value) (places : Precision), h.kindOf v = k →
      h.formText places form v = h.formText places form' v) : Renders e k form' := by
  intro frame h v hargs hv hk
  rw [he frame h v hargs hv hk, hforms h v frame.places hk]

/-- Only what is in a cell is of the kind of an array or a map. -/
theorem exists_ref_of_kindOf (hk : h.kindOf v = .array ∨ h.kindOf v = .map) : ∃ a, v = .ref a := by
  cases v with
  | ref a => exact ⟨a, rfl⟩
  | scalar s => cases s <;> exact absurd hk (by simp [kindOf, Scalar.kind])
  | undefined single m => cases single <;> exact absurd hk (by simp [kindOf])
  | tuple items => exact absurd hk (by simp [kindOf])

/-- The display form of an array is its debug form … -/
theorem formText_array (hk : h.kindOf v = .array) :
    h.formText places .debug v = h.formText places .display v := by
  obtain ⟨a, rfl⟩ := exists_ref_of_kindOf (.inl hk)
  have hne : h.kindOf (.ref a) ≠ .dynamic := by simp [hk]
  rw [formText, formText, display, unwrap_of_kindOf_ne hne]
  simp only [hk]

/-- … and that of a map is the marked one. -/
theorem formText_map (hk : h.kindOf v = .map) :
    h.formText places .markedDebug v = h.formText places .display v := by
  obtain ⟨a, rfl⟩ := exists_ref_of_kindOf (.inr hk)
  have hne : h.kindOf (.ref a) ≠ .dynamic := by simp [hk]
  rw [formText, formText, display, unwrap_of_kindOf_ne hne]
  simp only [hk]

/-- A value of the kind of a scalar that every value of the kind is. -/
theorem exists_scalar (hv : h.Holds v) (hk : h.kindOf v = .unit ∨ h.kindOf v = .string) :
    ∃ s, v = .scalar s := by
  cases v with
  | scalar s => exact ⟨s, rfl⟩
  | undefined single m => cases single <;> exact absurd hk (by simp [kindOf])
  | tuple items => exact absurd hk (by simp [kindOf])
  | ref a =>
    obtain ⟨c, hc⟩ := exists_get? (hv a (by simp))
    rw [kindOf, hc] at hk
    cases c <;> exact absurd hk (by simp [Cell.kind])

/-- Unit is shown by the empty string … -/
theorem renders_emptyText : Renders emptyText .unit .display := by
  intro frame h v _ hv hk
  obtain ⟨s, rfl⟩ := exists_scalar hv (.inl hk)
  cases s with
  | unit => rfl
  | _ => exact absurd hk nofun

/-- … and a string by itself. -/
theorem renders_first : Renders first .string .display := by
  intro frame h v hargs hv hk
  obtain ⟨s, rfl⟩ := exists_scalar hv (.inr hk)
  rw [first, Expr.eval, hargs]
  cases s with
  | string s =>
    have htext : h.formText frame.places .display (.scalar (.string s)) = .ok s :=
      congrArg Except.ok String.ofList_toList
    rw [htext]
    rfl
  | _ => exact absurd hk nofun

end Strings

/-- The function takes values of one kind, as they are or as copies of scalars, and answers with
their text in a form. -/
structure Native.Writes (f : Native) (k : Kind) (form : TextForm) : Prop where
  param : ∃ p b, f.params = [⟨p, k, b⟩] ∧
    (b = .reference ∨ b = .value ∧ (k = .unit ∨ k = .string))
  body : ∃ e, f.body = [.give e] ∧ Strings.Renders e k form

theorem Native.Writes.kinds_eq {f : Native} {k : Kind} {form : TextForm} (hf : f.Writes k form) :
    f.kinds = [k] := by
  obtain ⟨p, b, hparams, -⟩ := hf.param
  rw [kinds, hparams]
  rfl

/-! ## What registrations fix -/

/-- A function has the name that it is registered under, and as many parameters as are fixed. -/
theorem Entry.name_of_toNative {x : Entry} {limit : Except ConvertError Int}
    {home : Option EngineId} {f : Native} (hf : x.toNative limit home = .ok f) :
    f.name = x.name ∧ ∀ n style, x.form = .fixed n style → f.arity = n := by
  rw [toNative] at hf
  split at hf
  · rename_i hform
    exact ⟨Native.name_of_ofHost hf, fun n style hfixed => absurd (hform.symm.trans hfixed) nofun⟩
  · rename_i arity style hform
    obtain ⟨g, hmade, harity⟩ := Except.bind_eq_ok.mp hf
    obtain ⟨rfl, hcount⟩ := Native.withArity_eq_ok.mp harity
    refine ⟨Native.name_of_ofHost hmade, fun n style' hfixed => ?_⟩
    rw [hcount, (EntryForm.fixed.inj (hform.symm.trans hfixed)).1]

namespace Strings

/-! ## Registrations -/

variable {e : Expr} {k : Kind} {form : TextForm} {x : Entry} {f : Native} {name p : String}
  {limit : Except ConvertError Int} {home : Option EngineId} {condition : Option Feature}
  {style : CallStyle}

/-- How a style passes the only argument. -/
def passing : CallStyle → Binding
  | .method => .reference
  | .pure => .value

/-- The function that is made of the registration of an answer. -/
theorem eq_of_toNative (hk : k ≠ .dynamic)
    (hf : (entry condition style name (answering [p] e) [.kind k]).toNative limit home = .ok f) :
    f = ⟨name, [⟨p, k, passing style⟩], true, some .string, [.give e], home⟩ := by
  obtain ⟨g, hmade, harity⟩ := Except.bind_eq_ok.mp hf
  obtain ⟨given, hgiven, hcounted⟩ := Except.bind_eq_ok.mp hmade
  obtain ⟨-, -, hhinted⟩ := Except.bind_eq_ok.mp hcounted
  obtain ⟨hints, hhints, hshaped⟩ := Except.bind_eq_ok.mp hhinted
  obtain ⟨ps, hps, hstyled⟩ := Except.bind_eq_ok.mp hshaped
  obtain ⟨qs, hqs, hdone⟩ := Except.bind_eq_ok.mp hstyled
  obtain rfl : [⟨p, none, .positional, false⟩] = given := Except.ok.inj hgiven
  obtain rfl : [(HostFunction.resultName, .kind .string)] = hints := Except.ok.inj hhints
  have hparam : [Param.byValue p k] = ps := by
    cases k with
    | handle => exact absurd hps nofun
    | _ => exact Except.ok.inj hps
  rw [Param.byValue, if_neg hk] at hparam
  have hpassed : [⟨p, k, passing style⟩] = qs := by
    rw [← hparam] at hqs
    cases style with
    | pure => exact Except.ok.inj hqs
    | method => exact Except.ok.inj hqs
  rw [← hpassed] at hdone
  rw [← Except.ok.inj hdone] at harity
  exact (Except.ok.inj harity).symm

/-- A registration makes a function for the text of values of a kind, whenever the kind has one. -/
structure Registers (x : Entry) (name : String) (k : Kind) : Prop where
  shape : ∃ condition style p e, x = entry condition style name (answering [p] e) [.kind k] ∧
    (style = .method ∨ style = .pure ∧ (k = .unit ∨ k = .string)) ∧ Renders e k (formFor name k)
  applies (fs : Features) : x.applies fs = hasText fs k

namespace Registers

theorem name_eq (hx : Registers x name k) : x.name = name := by
  obtain ⟨condition, style, p, e, rfl, -⟩ := hx.shape
  rfl

theorem types_eq (hx : Registers x name k) : x.types = [some (.kind k)] := by
  obtain ⟨condition, style, p, e, rfl, -⟩ := hx.shape
  rfl

theorem writes (hx : Registers x name k) (hk : k ≠ .dynamic) (hf : x.toNative limit home = .ok f) :
    f.Writes k (formFor name k) := by
  obtain ⟨condition, style, p, e, rfl, hstyle, he⟩ := hx.shape
  obtain rfl := eq_of_toNative hk hf
  refine ⟨⟨p, passing style, rfl, ?_⟩, e, rfl, he⟩
  rcases hstyle with rfl | ⟨rfl, hscalar⟩
  · exact .inl rfl
  · exact .inr ⟨rfl, hscalar⟩

end Registers

/-- A registration under one of the three names takes no argument or is one of these. -/
def Accounted (x : Entry) : Prop :=
  (∃ k, k ≠ .dynamic ∧ Registers x x.name k) ∨ x.name ∉ textNames ∨ x.form = .fixed 0 .pure

theorem formFor_print (k : Kind) : formFor printName k = .display := if_neg (by decide)

theorem formFor_toString (k : Kind) : formFor toStringName k = .display := if_neg (by decide)

theorem formFor_debug (k : Kind) :
    formFor debugName k = if k = .map then .markedDebug else .debug := if_pos rfl

/-- The text of a kind's values in one form is their text in another. -/
abbrev Shows (k : Kind) (form form' : TextForm) : Prop :=
  Renders (.apply (.text form) [first]) k form'

/-- Registrations of one form, where that is the form asked for. -/
theorem accounted_perKind {kinds : List Kind} (hkinds : ∀ k ∈ kinds, k ≠ .dynamic ∧
      Shows k form (formFor name k) ∧ ∀ fs, condition.all fs.has = hasText fs k) :
    ∀ x ∈ perKind condition name (textual form) kinds, Accounted x := by
  intro x hx
  obtain ⟨k, hk, rfl⟩ := List.mem_map.mp hx
  obtain ⟨hdynamic, hshows, happlies⟩ := hkinds k hk
  refine .inl ⟨k, hdynamic, ⟨condition, .method, "x", _, rfl, .inl rfl, hshows⟩, fun fs => ?_⟩
  rw [← happlies fs]
  cases condition <;> rfl

theorem accounted_textsFor {feature : Feature} {shown debugged : TextForm} {kinds : List Kind}
    (hkinds : ∀ k ∈ kinds, k ≠ .dynamic ∧ Shows k shown .display ∧
      Shows k debugged (formFor debugName k) ∧ ∀ fs, fs.has feature = hasText fs k) :
    ∀ x ∈ textsFor feature shown debugged kinds, Accounted x := by
  rw [textsFor, List.forall_mem_append, List.forall_mem_append]
  refine ⟨⟨accounted_perKind fun k hk => ?_, accounted_perKind fun k hk => ?_⟩,
    accounted_perKind fun k hk => ?_⟩
  all_goals obtain ⟨hdynamic, hshown, hdebugged, hfeature⟩ := hkinds k hk
  · exact ⟨hdynamic, (formFor_print k).symm ▸ hshown, hfeature⟩
  · exact ⟨hdynamic, (formFor_toString k).symm ▸ hshown, hfeature⟩
  · exact ⟨hdynamic, hdebugged, hfeature⟩

theorem shows_formFor_debug (hk : k ≠ .map) : Shows k .debug (formFor debugName k) := by
  rw [formFor_debug, if_neg hk]
  exact renders_text k .debug

/-- The kinds that have a text under all features. -/
def basicKinds : List Kind := [.unit, .bool, .int, .char, .string]

theorem of_mem_basicKinds (hk : k ∈ basicKinds) :
    k ≠ .dynamic ∧ k ≠ .map ∧ ∀ fs, none.all fs.has = hasText fs k := by
  simp only [basicKinds, List.mem_cons, List.not_mem_nil, or_false] at hk
  rcases hk with rfl | rfl | rfl | rfl | rfl
  all_goals exact ⟨nofun, nofun, fun _ => rfl⟩

/-- A registration that needs no feature and passes a scalar by value. -/
theorem accounted_pure {e : Expr} (hk : k = .unit ∨ k = .string)
    (he : Renders e k (formFor name k)) :
    Accounted (entry none .pure name (answering [p] e) [.kind k]) := by
  have hbasic : k ∈ basicKinds := by rcases hk with rfl | rfl <;> decide
  obtain ⟨hdynamic, -, happlies⟩ := of_mem_basicKinds hbasic
  exact .inl ⟨k, hdynamic, ⟨none, .pure, p, e, rfl, .inr ⟨rfl, hk⟩, he⟩, happlies⟩

theorem accounted_other (hname : x.name ∉ textNames) : Accounted x := .inr (.inl hname)

/-- **The registrations of the package are accounted for.** -/
theorem accounted_entries : ∀ x ∈ entries, Accounted x := by
  simp only [entries, List.forall_mem_append]
  refine ⟨⟨⟨⟨⟨⟨⟨⟨?print, ?toString⟩, ?pure⟩, ?debug⟩, ?sized⟩, ?floating⟩, ?arrays⟩, ?maps⟩, ?others⟩
  case print =>
    refine accounted_perKind fun k hk => ?_
    have hbasic : k ∈ basicKinds := (by decide : _ ⊆ basicKinds) hk
    obtain ⟨hdynamic, -, happlies⟩ := of_mem_basicKinds hbasic
    exact ⟨hdynamic, (formFor_print k).symm ▸ renders_text k .display, happlies⟩
  case toString =>
    refine accounted_perKind fun k hk => ?_
    have hbasic : k ∈ basicKinds := (by decide : _ ⊆ basicKinds) hk
    obtain ⟨hdynamic, -, happlies⟩ := of_mem_basicKinds hbasic
    exact ⟨hdynamic, (formFor_toString k).symm ▸ renders_text k .display, happlies⟩
  case debug =>
    refine accounted_perKind fun k hk => ?_
    have hbasic : k ∈ basicKinds := (by decide : _ ⊆ basicKinds) hk
    obtain ⟨hdynamic, hmap, happlies⟩ := of_mem_basicKinds hbasic
    exact ⟨hdynamic, shows_formFor_debug hmap, happlies⟩
  case pure =>
    rw [List.forall_mem_cons, List.forall_mem_cons, List.forall_mem_cons, List.forall_mem_cons,
      List.forall_mem_singleton]
    refine ⟨.inr (.inr rfl), accounted_pure (.inl rfl) ?_, accounted_pure (.inl rfl) ?_,
      accounted_pure (.inr rfl) ?_, accounted_pure (.inr rfl) ?_⟩
    · exact (formFor_print _).symm ▸ renders_emptyText
    · exact (formFor_toString _).symm ▸ renders_emptyText
    · exact (formFor_print _).symm ▸ renders_first
    · exact (formFor_toString _).symm ▸ renders_first
  case sized =>
    refine accounted_textsFor fun k hk => ?_
    obtain ⟨w, -, rfl⟩ := List.mem_map.mp hk
    exact ⟨nofun, renders_text _ _, shows_formFor_debug nofun, fun _ => rfl⟩
  case floating =>
    refine accounted_textsFor fun k hk => ?_
    rw [List.mem_cons, List.mem_singleton] at hk
    rcases hk with rfl | rfl
    · exact ⟨nofun, renders_text _ _, shows_formFor_debug nofun, fun _ => rfl⟩
    · exact ⟨nofun, renders_text _ _, shows_formFor_debug nofun, fun _ => rfl⟩
  case arrays =>
    refine accounted_textsFor fun k hk => ?_
    obtain rfl := List.mem_singleton.mp hk
    exact ⟨nofun, (renders_text _ .debug).congr fun _ _ _ => formText_array,
      shows_formFor_debug nofun, fun _ => rfl⟩
  case maps =>
    refine accounted_textsFor fun k hk => ?_
    obtain rfl := List.mem_singleton.mp hk
    exact ⟨nofun, (renders_text _ .markedDebug).congr fun _ _ _ => formText_map,
      renders_text _ .markedDebug, fun _ => rfl⟩
  case others =>
    rw [List.forall_mem_cons, List.forall_mem_cons, List.forall_mem_cons, List.forall_mem_singleton]
    refine ⟨accounted_other ?_, accounted_other ?_, accounted_other ?_, accounted_other ?_⟩
    all_goals decide

/-- The kinds that have a text under some features. -/
def textKinds : List Kind := basicKinds ++ Width.all.map .sized ++ [.float, .single, .array, .map]

theorem mem_textKinds {fs : Features} (hk : hasText fs k = true) : k ∈ textKinds := by
  cases k with
  | sized w => cases w <;> decide
  | unit | bool | int | float | single | char | string | array | map => decide
  | _ => exact absurd hk Bool.false_ne_true

/-- The names and kinds of the registrations of one parameter. -/
def offered : List (String × Kind) :=
  entries.filterMap fun x => match x.types, x.form with
    | [some (.kind k)], .fixed 1 _ => some (x.name, k)
    | _, _ => none

theorem exists_of_mem_offered (h : (name, k) ∈ offered) :
    ∃ x ∈ entries, x.name = name ∧ x.types = [some (.kind k)] ∧
      ∃ style, x.form = .fixed 1 style := by
  obtain ⟨x, hx, hoffer⟩ := List.mem_filterMap.mp h
  split at hoffer
  · rename_i htypes hform
    obtain ⟨rfl, rfl⟩ := Prod.mk.inj (Option.some.inj hoffer)
    exact ⟨x, hx, rfl, htypes, _, hform⟩
  · exact absurd hoffer nofun

theorem mem_offered : ∀ name ∈ textNames, ∀ k ∈ textKinds, (name, k) ∈ offered := by decide +kernel

/-- **There is a registration for every name and every kind that has a text.** -/
theorem exists_registers {fs : Features} (hname : name ∈ textNames) (hk : hasText fs k = true) :
    ∃ x ∈ entries, Registers x name k := by
  obtain ⟨x, hx, rfl, htypes, style, hform⟩ :=
    exists_of_mem_offered (mem_offered name hname k (mem_textKinds hk))
  rcases accounted_entries x hx with ⟨l, -, hl⟩ | hother | hnone
  · have hkinds : [some (TypeHint.kind l)] = [some (.kind k)] := hl.types_eq.symm.trans htypes
    obtain rfl : l = k := by simpa using hkinds
    exact ⟨x, hx, hl⟩
  · exact absurd hname hother
  · exact absurd (hform.symm.trans hnone) nofun

/-! ## Functions -/

variable {fs : Features}

theorem eq_of_accepts {l : Kind} (hf : f.Writes l form) (hl : l ≠ .dynamic)
    (haccepts : f.Accepts [k]) : l = k := by
  rw [Native.Accepts, hf.kinds_eq] at haccepts
  exact (List.forall₂_cons.mp haccepts).1.resolve_left hl

theorem exists_of_forall₂ {α β : Type} {R : α → β → Prop} {xs : List α} {ys : List β}
    (h : List.Forall₂ R xs ys) : (∀ x ∈ xs, ∃ y ∈ ys, R x y) ∧ ∀ y ∈ ys, ∃ x ∈ xs, R x y := by
  induction h with
  | nil => exact ⟨nofun, nofun⟩
  | @cons x y xs ys hxy _ ih =>
    constructor
    · refine List.forall_mem_cons.mpr ⟨⟨y, List.mem_cons_self, hxy⟩, fun z hz => ?_⟩
      obtain ⟨w, hw, hzw⟩ := ih.1 z hz
      exact ⟨w, List.mem_cons_of_mem _ hw, hzw⟩
    · refine List.forall_mem_cons.mpr ⟨⟨x, List.mem_cons_self, hxy⟩, fun z hz => ?_⟩
      obtain ⟨w, hw, hwz⟩ := ih.2 z hz
      exact ⟨w, List.mem_cons_of_mem _ hw, hwz⟩

section Made

variable {natives : List Native}
  (hmade : List.Forall₂ (fun x f => x.toNative limit home = .ok f) (package.entriesFor fs) natives)
include hmade

/-- **A function of the three names that takes a value writes its text**, and values of the kind
have one. -/
theorem writes_of_made (hf : f ∈ natives) (hname : f.name ∈ textNames) (haccepts : f.Accepts [k]) :
    hasText fs k = true ∧ f.Writes k (formFor f.name k) := by
  obtain ⟨x, hx, hmake⟩ := (exists_of_forall₂ hmade).2 f hf
  obtain ⟨hentry, happlies⟩ := List.mem_filter.mp hx
  obtain ⟨hsame, hfixed⟩ := Entry.name_of_toNative hmake
  rcases accounted_entries x hentry with ⟨l, hl, hregisters⟩ | hother | hnone
  · have hwrites := hregisters.writes hl hmake
    obtain rfl := eq_of_accepts hwrites hl haccepts
    rw [hsame]
    exact ⟨(hregisters.applies fs).symm.trans happlies, hwrites⟩
  · exact absurd (hsame ▸ hname) hother
  · -- a function without parameters takes no argument
    have hlength : f.kinds.length = 1 := List.Forall₂.length_eq haccepts
    have harity : f.kinds.length = 0 := by
      rw [Native.kinds, List.length_map]
      exact hfixed 0 .pure hnone
    omega

/-- For every kind that has a text there is a function of each name. -/
theorem exists_made (hname : name ∈ textNames) (hk : hasText fs k = true) :
    ∃ f ∈ natives, f.name = name ∧ f.Accepts [k] := by
  obtain ⟨x, hx, hregisters⟩ := exists_registers hname hk
  have hentry : x ∈ package.entriesFor fs :=
    List.mem_filter.mpr ⟨hx, (hregisters.applies fs).trans hk⟩
  obtain ⟨f, hf, hmake⟩ := (exists_of_forall₂ hmade).1 x hentry
  have hkinds := (hregisters.writes (ne_dynamic_of_hasText hk) hmake).kinds_eq
  refine ⟨f, hf, (Entry.name_of_toNative hmake).1.trans hregisters.name_eq, ?_⟩
  exact hkinds ▸ f.accepts_kinds

/-- **A table with these functions** has one of each name for the kinds that have a text, which
writes it, and none for the others. -/
theorem find?_of_made {t : Table} (ht : t.functions = Table.entered natives)
    (hname : name ∈ textNames) :
    (hasText fs k = true → ∃ f, t.find? name [k] = some f ∧ f.name = name ∧
      f.Writes k (formFor name k)) ∧
    (hasText fs k = false → t.find? name [k] = none) := by
  constructor
  · intro hk
    cases hfind : t.find? name [k] with
    | none =>
      obtain ⟨f, hf, hsame, haccepts⟩ := exists_made hmade hname hk
      exact absurd haccepts ((Table.find?_eq_none_iff ht name [k]).mp hfind f hf hsame)
    | some f =>
      have hbest := (Table.find?_eq_some_iff_best ht name [k] f).mp hfind
      have hwrites :=
        (writes_of_made hmade hbest.latest.mem (hbest.name_eq ▸ hname) hbest.accepts).2
      exact ⟨f, rfl, hbest.name_eq, hbest.name_eq ▸ hwrites⟩
  · intro hk
    refine (Table.find?_eq_none_iff ht name [k]).mpr fun f hf hsame haccepts => ?_
    have htext := (writes_of_made hmade hf (hsame ▸ hname) haccepts).1
    exact Bool.false_ne_true (hk.symm.trans htext)

end Made

end Strings
end ScriptHost
