import ScriptHost.Proofs.Text.Escaping
import ScriptHost.Value.Text
import Mathlib.Data.List.Forall2

/-!
# The debug form says which value it is

Two values made of unit, truth values, integers, texts, arrays and maps with string keys have the
same debug form only if they are the same value, whatever their texts hold.

A form inside a larger one is followed by a comma or by a closing bracket, never by more of
itself, and its first character gives away its kind.  So the statement that an induction can use
is about two forms with something behind them (`Text.Delimited`): if the two wholes agree, the
values agree, and so does what stands behind.

* `digits_append_inj`, `integerText_append_inj`: numbers end where their digits end.
* `joined_append_inj`: if items are delimited, so is a list of them up to its closing bracket.
  Arrays and maps are the two uses of it.
* `Datum.Readable`: the values that the statement is about.
* `Datum.delimited_of_readable`: by induction on the value, and from it `Datum.Readable.eq_of_debug`
  and `Datum.eq_of_debug_eq`.
-/

namespace ScriptHost

open Text

variable {r r' : List Char}

namespace Text

/-- What may stand behind the form of a value: nothing, a separator or a closing bracket. -/
def Ends (r : List Char) : Prop := ∀ c ∈ r.head?, c = ',' ∨ c = ']' ∨ c = '\x7d'

theorem ends_nil : Ends [] := nofun

theorem ends_comma (r : List Char) : Ends (',' :: r) := fun _ hc => Or.inl (Option.some.inj hc).symm

theorem ends_bracket (r : List Char) : Ends (']' :: r) :=
  fun _ hc => Or.inr (Or.inl (Option.some.inj hc).symm)

theorem ends_brace (r : List Char) : Ends ('\x7d' :: r) :=
  fun _ hc => Or.inr (Or.inr (Option.some.inj hc).symm)

/-! ## Numbers -/

theorem takeWhile_digits_append (n : Nat) (hr : Ends r) :
    (Decimal.digits n ++ r).takeWhile Char.isDigit = Decimal.digits n := by
  have hdigits : ∀ c ∈ Decimal.digits n, c.isDigit = true := fun c hc =>
    Nat.isDigit_of_mem_toDigits (by decide) (by decide) hc
  have hend : r.takeWhile Char.isDigit = [] := by
    cases r with
    | nil => rfl
    | cons c r =>
      rcases hr c rfl with rfl | rfl | rfl <;> rfl
  rw [List.takeWhile_append_of_pos hdigits, hend, List.append_nil]

theorem digits_append_inj {n m : Nat} (hr : Ends r) (hr' : Ends r')
    (h : Decimal.digits n ++ r = Decimal.digits m ++ r') : n = m ∧ r = r' := by
  have hdigits := takeWhile_digits_append n hr
  rw [h, takeWhile_digits_append m hr'] at hdigits
  have hread := congrArg (fun ds => Nat.ofDigitChars 10 ds 0) hdigits
  simp only [Decimal.digits, Nat.ofDigitChars_ten_toDigits] at hread
  rw [hdigits] at h
  exact ⟨hread.symm, List.append_cancel_left h⟩

/-- A number starts with a digit. -/
theorem exists_digits_eq_cons (n : Nat) :
    ∃ c ds, Decimal.digits n = c :: ds ∧ c.isDigit = true := by
  have hne : Decimal.digits n ≠ [] := Nat.toDigits_ne_nil
  obtain ⟨c, ds, hds⟩ := List.exists_cons_of_ne_nil hne
  have hc : c ∈ Decimal.digits n := hds ▸ List.mem_cons_self
  exact ⟨c, ds, hds, Nat.isDigit_of_mem_toDigits (by decide) (by decide) hc⟩

theorem digits_ne_minus {n : Nat} : Decimal.digits n ++ r ≠ '-' :: r' := by
  obtain ⟨c, ds, hds, hc⟩ := exists_digits_eq_cons n
  rw [hds]
  rintro h
  rw [(List.cons.inj h).1] at hc
  exact absurd hc nofun

theorem integerText_append_inj {n m : Int} (hr : Ends r) (hr' : Ends r')
    (h : Decimal.integerText n ++ r = Decimal.integerText m ++ r') : n = m ∧ r = r' := by
  rw [Decimal.integerText, Decimal.integerText] at h
  split at h
  · split at h
    · obtain ⟨habs, hrest⟩ := digits_append_inj hr hr' (List.cons.inj h).2
      exact ⟨by omega, hrest⟩
    · exact absurd h.symm digits_ne_minus
  · split at h
    · exact absurd h digits_ne_minus
    · obtain ⟨habs, hrest⟩ := digits_append_inj hr hr' h
      exact ⟨by omega, hrest⟩

/-! ## Lists of items -/

/-- Where the form of `x` ends can be seen from the form: with something behind it, it is no form
of another item with something else behind. -/
def Delimited {α : Type} (Shows : α → List Char → Prop) (x : α) : Prop :=
  ∀ y t u r r', Shows x t → Shows y u → Ends r → Ends r' → t ++ r = u ++ r' → x = y ∧ r = r'

/-- No form starts with the closing bracket. -/
def Unclosed {α : Type} (Shows : α → List Char → Prop) (close : Char) : Prop :=
  ∀ x t, Shows x t → ∃ c rest, t = c :: rest ∧ c ≠ close

/-- What stands behind the first of several items. -/
def behind : List (List Char) → List Char → List Char
  | [], r => r
  | t :: ts, r => ',' :: ' ' :: (joined comma (t :: ts) ++ r)

theorem joined_cons_append (t : List Char) (ts : List (List Char)) (r : List Char) :
    joined comma (t :: ts) ++ r = t ++ behind ts r := by
  cases ts with
  | nil => rfl
  | cons u us => simp [joined, behind, comma]

theorem ends_behind (ts : List (List Char)) (hr : Ends r) : Ends (behind ts r) := by
  cases ts with
  | nil => exact hr
  | cons t ts => exact ends_comma _

/-- What stands behind tells whether there are further items. -/
theorem joined_eq_of_behind_eq {close : Char} (hcomma : close ≠ ',') {ts us : List (List Char)}
    (h : behind ts (close :: r) = behind us (close :: r')) :
    joined comma ts ++ close :: r = joined comma us ++ close :: r' := by
  cases ts with
  | nil =>
    cases us with
    | nil => exact h
    | cons u us => exact absurd (List.cons.inj h).1 hcomma
  | cons t ts =>
    cases us with
    | nil => exact absurd (List.cons.inj h).1.symm hcomma
    | cons u us => exact (List.cons.inj (List.cons.inj h).2).2

/-- **Items between commas are told apart**, if each of them is delimited. -/
theorem joined_append_inj {α : Type} {Shows : α → List Char → Prop} {close : Char}
    (hends : ∀ r, Ends (close :: r)) (hcomma : close ≠ ',') (hopen : Unclosed Shows close)
    {xs ys : List α} {ts us : List (List Char)} (hxs : List.Forall₂ Shows xs ts)
    (hys : List.Forall₂ Shows ys us) (hdelimited : ∀ x ∈ xs, Delimited Shows x)
    (h : joined comma ts ++ close :: r = joined comma us ++ close :: r') : xs = ys ∧ r = r' := by
  have hstart : ∀ {x t} (ts : List (List Char)) (r r' : List Char), Shows x t →
      joined comma (t :: ts) ++ r ≠ close :: r' := by
    intro x t ts r r' ht heq
    obtain ⟨c, rest, rfl, hc⟩ := hopen x t ht
    rw [joined_cons_append] at heq
    exact hc (List.cons.inj heq).1
  induction hxs generalizing ys us with
  | nil =>
    cases hys with
    | nil => exact ⟨rfl, (List.cons.inj h).2⟩
    | cons hy _ => exact absurd h.symm (hstart _ _ _ hy)
  | @cons x t xs ts hx hxs ih =>
    obtain ⟨hfirst, hothers⟩ := List.forall_mem_cons.mp hdelimited
    cases hys with
    | nil => exact absurd h (hstart _ _ _ hx)
    | @cons y u ys us hy hys =>
      rw [joined_cons_append, joined_cons_append] at h
      have hends₁ := ends_behind ts (hends r)
      have hends₂ := ends_behind us (hends r')
      obtain ⟨rfl, hrest⟩ := hfirst y t u _ _ hx hy hends₁ hends₂ h
      obtain ⟨rfl, hr⟩ := ih hys hothers (joined_eq_of_behind_eq hcomma hrest)
      exact ⟨rfl, hr⟩

end Text

/-! ## Values -/

namespace Datum

/-- A value made of unit, truth values, integers, characters, strings, arrays and maps whose keys
are strings, no key standing twice. -/
inductive Readable : Datum → Prop where
  | unit : Readable .unit
  | bool (b : Bool) : Readable (.bool b)
  | int (n : Int) : Readable (.int n)
  | char (c : Char) : Readable (.scalar (.char c))
  | string (s : String) : Readable (.string s)
  | array {items : List Datum} : (∀ d ∈ items, Readable d) → Readable (.array items)
  | map {entries : List (Datum × Datum)} : (∀ entry ∈ entries, ∃ s, entry.1 = .string s) →
    (entries.map (·.1)).Nodup → (∀ entry ∈ entries, Readable entry.2) → Readable (.map entries)

/-- The text is the debug form of the value. -/
def Shows (d : Datum) (t : List Char) : Prop := d.Readable ∧ d.debug = .ok t

/-- The text is the debug form of the entry of a map. -/
def EntryShows (entry : Datum × Datum) (t : List Char) : Prop :=
  (∃ s, entry.1 = .string s) ∧
    ∃ u, entry.2.Shows u ∧ t = debugString entry.1.plain ++ (colon ++ u)

/-- An array shows its items. -/
theorem exists_debug_array {items : List Datum} (h : ∀ d ∈ items, ∃ t, d.Shows t) :
    ∃ ts, (Datum.array items).debug = .ok (bracketed (joined comma ts)) ∧
      List.Forall₂ Shows items ts := by
  suffices hall : ∃ ts, debugs items = .ok ts ∧ List.Forall₂ Shows items ts by
    obtain ⟨ts, hts, hshows⟩ := hall
    refine ⟨ts, ?_, hshows⟩
    rw [debug, hts]
    rfl
  induction items with
  | nil => exact ⟨[], rfl, .nil⟩
  | cons d rest ih =>
    obtain ⟨⟨t, ht⟩, hrest⟩ := List.forall_mem_cons.mp h
    obtain ⟨ts, hts, hshows⟩ := ih hrest
    refine ⟨t :: ts, ?_, .cons ht hshows⟩
    rw [debugs, ht.2, hts]
    rfl

/-- A map shows its entries. -/
theorem exists_debug_map {entries : List (Datum × Datum)}
    (hkeys : ∀ entry ∈ entries, ∃ s, entry.1 = .string s)
    (h : ∀ entry ∈ entries, ∃ t, entry.2.Shows t) :
    ∃ ts, (Datum.map entries).debug = .ok (braced (joined comma ts)) ∧
      List.Forall₂ EntryShows entries ts := by
  suffices hall : ∃ ts, debugEntries entries = .ok ts ∧ List.Forall₂ EntryShows entries ts by
    obtain ⟨ts, hts, hshows⟩ := hall
    refine ⟨ts, ?_, hshows⟩
    rw [debug, hts]
    rfl
  induction entries with
  | nil => exact ⟨[], rfl, .nil⟩
  | cons entry rest ih =>
    obtain ⟨⟨t, ht⟩, hrest⟩ := List.forall_mem_cons.mp h
    obtain ⟨hkey, hkeys⟩ := List.forall_mem_cons.mp hkeys
    obtain ⟨ts, hts, hshows⟩ := ih hkeys hrest
    refine ⟨(debugString entry.1.plain ++ (colon ++ t)) :: ts, ?_, .cons ⟨hkey, t, ht, rfl⟩ hshows⟩
    rw [debugEntries, ht.2, hts]
    rfl

/-- Such a value has a debug form. -/
theorem Readable.exists_shows {d : Datum} (hd : d.Readable) : ∃ t, d.Shows t := by
  suffices h : ∃ t, d.debug = .ok t from h.imp fun _ ht => ⟨hd, ht⟩
  induction hd with
  | unit => exact ⟨_, rfl⟩
  | bool b => exact ⟨_, rfl⟩
  | int n => exact ⟨_, rfl⟩
  | char c => exact ⟨_, rfl⟩
  | string s => exact ⟨_, rfl⟩
  | array hitems ih =>
    obtain ⟨ts, hts, -⟩ := exists_debug_array fun d hd =>
      (ih d hd).imp fun _ ht => ⟨hitems d hd, ht⟩
    exact ⟨_, hts⟩
  | map hkeys _ hvalues ih =>
    obtain ⟨ts, hts, -⟩ := exists_debug_map hkeys fun entry hentry =>
      (ih entry hentry).imp fun _ ht => ⟨hvalues entry hentry, ht⟩
    exact ⟨_, hts⟩

/-- The kind of value whose debug form starts with a character. -/
def leadKind? (c : Char) : Option Kind :=
  if c.isDigit ∨ c = '-' then some .int
  else match c with
    | '(' => some .unit
    | 't' | 'f' => some .bool
    | '\'' => some .char
    | '"' => some .string
    | '[' => some .array
    | '\x7b' => some .map
    | _ => none

theorem exists_lead_integerText (n : Int) :
    ∃ c rest, Decimal.integerText n = c :: rest ∧ leadKind? c = some .int := by
  rw [Decimal.integerText]
  split
  · exact ⟨'-', _, rfl, if_pos (Or.inr rfl)⟩
  · obtain ⟨c, ds, hds, hc⟩ := exists_digits_eq_cons n.natAbs
    exact ⟨c, ds, hds, if_pos (Or.inl hc)⟩

/-- The first character of a debug form gives the kind away. -/
theorem Shows.exists_lead {d : Datum} {t : List Char} (h : d.Shows t) :
    ∃ c rest, t = c :: rest ∧ leadKind? c = some d.kind := by
  obtain ⟨hd, ht⟩ := h
  cases hd with
  | unit => exact ⟨_, _, (Except.ok.inj ht).symm, rfl⟩
  | bool b => cases b <;> exact ⟨_, _, (Except.ok.inj ht).symm, rfl⟩
  | int n => exact Except.ok.inj ht ▸ exists_lead_integerText n
  | char c => exact ⟨_, _, (Except.ok.inj ht).symm, rfl⟩
  | string s => exact ⟨_, _, (Except.ok.inj ht).symm, rfl⟩
  | array hitems =>
    obtain ⟨ts, hts, -⟩ := exists_debug_array fun d hd => (hitems d hd).exists_shows
    rw [hts] at ht
    exact ⟨_, _, (Except.ok.inj ht).symm, rfl⟩
  | map hkeys _ hvalues =>
    obtain ⟨ts, hts, -⟩ := exists_debug_map hkeys fun e he => (hvalues e he).exists_shows
    rw [hts] at ht
    exact ⟨_, _, (Except.ok.inj ht).symm, rfl⟩

theorem kind_eq_of_append_eq {d e : Datum} {t u : List Char} (ht : d.Shows t) (hu : e.Shows u)
    (h : t ++ r = u ++ r') : d.kind = e.kind := by
  obtain ⟨c, _, rfl, hc⟩ := ht.exists_lead
  obtain ⟨c', _, rfl, hc'⟩ := hu.exists_lead
  rw [(List.cons.inj h).1, hc'] at hc
  exact (Option.some.inj hc).symm

theorem unclosed_shows : Unclosed Shows ']' := by
  intro d t ht
  obtain ⟨c, rest, rfl, hc⟩ := ht.exists_lead
  refine ⟨c, rest, rfl, ?_⟩
  rintro rfl
  exact absurd hc nofun

theorem unclosed_entryShows : Unclosed EntryShows '\x7d' := by
  rintro entry t ⟨-, u, -, rfl⟩
  exact ⟨_, _, rfl, nofun⟩

/-- A text in quotes is delimited. -/
theorem debugString_append_inj {s t : List Char}
    (h : debugString s ++ r = debugString t ++ r') : s = t ∧ r = r' := by
  simp only [debugString, List.cons_append, List.append_assoc, List.nil_append] at h
  exact escape_append_quote_inj .double (List.cons.inj h).2

theorem debugChar_append_inj {c d : Char} (h : debugChar c ++ r = debugChar d ++ r') :
    c = d ∧ r = r' := by
  simp only [debugChar, List.cons_append, List.append_assoc, List.nil_append] at h
  obtain ⟨hc, hr⟩ := escape_append_quote_inj .single (List.cons.inj h).2
  exact ⟨(List.cons.inj hc).1, hr⟩

/-- An entry is delimited if its value is. -/
theorem delimited_entryShows {entry : Datum × Datum} (h : Delimited Shows entry.2) :
    Delimited EntryShows entry := by
  rintro ⟨key, value⟩ t u r r' ⟨⟨s, hs⟩, t, ht, rfl⟩ ⟨⟨s', hs'⟩, u, hu, rfl⟩ hr hr' heq
  obtain ⟨key₀, value₀⟩ := entry
  simp only at hs hs' h ht hu
  subst hs hs'
  simp only [List.append_assoc] at heq
  obtain ⟨hkeys, hrest⟩ := debugString_append_inj heq
  obtain ⟨rfl, hr⟩ := h value t u r r' ht hu hr hr' (List.append_cancel_left hrest)
  have hkeys : s = s' := String.toList_inj.mp hkeys
  exact ⟨by rw [hkeys], hr⟩

/-- Only values of the same kind have to be told apart. -/
theorem delimited_of_kind {d : Datum}
    (hd : ∀ e, e.Readable → e.kind = d.kind → ∀ t u r r', d.debug = .ok t → e.debug = .ok u →
      Ends r → Ends r' → t ++ r = u ++ r' → d = e ∧ r = r') : Delimited Shows d := by
  intro e t u r r' ht hu hr hr' h
  exact hd e hu.1 (kind_eq_of_append_eq ht hu h).symm t u r r' ht.2 hu.2 hr hr' h

theorem delimited_array {items : List Datum} (hitems : ∀ d ∈ items, d.Readable)
    (hdelimited : ∀ d ∈ items, Delimited Shows d) : Delimited Shows (.array items) := by
  refine delimited_of_kind fun e he hkind t u r r' ht hu _ _ h => ?_
  cases he with
  | @array others hothers =>
    obtain ⟨ts, hts, hxs⟩ := exists_debug_array fun d hd => (hitems d hd).exists_shows
    obtain ⟨us, hus, hys⟩ := exists_debug_array fun d hd => (hothers d hd).exists_shows
    rw [← Except.ok.inj (hts.symm.trans ht), ← Except.ok.inj (hus.symm.trans hu)] at h
    simp only [bracketed, List.cons_append, List.append_assoc, List.nil_append] at h
    obtain ⟨rfl, hrest⟩ := joined_append_inj ends_bracket (by decide) unclosed_shows hxs hys
      hdelimited (List.cons.inj h).2
    exact ⟨rfl, hrest⟩
  | _ => exact absurd hkind nofun

theorem delimited_map {entries : List (Datum × Datum)}
    (hkeys : ∀ entry ∈ entries, ∃ s, entry.1 = .string s)
    (hvalues : ∀ entry ∈ entries, entry.2.Readable)
    (hdelimited : ∀ entry ∈ entries, Delimited Shows entry.2) :
    Delimited Shows (.map entries) := by
  refine delimited_of_kind fun e he hkind t u r r' ht hu _ _ h => ?_
  cases he with
  | @map others hkeys' _ hvalues' =>
    obtain ⟨ts, hts, hxs⟩ := exists_debug_map hkeys fun e he => (hvalues e he).exists_shows
    obtain ⟨us, hus, hys⟩ := exists_debug_map hkeys' fun e he => (hvalues' e he).exists_shows
    rw [← Except.ok.inj (hts.symm.trans ht), ← Except.ok.inj (hus.symm.trans hu)] at h
    simp only [braced, List.cons_append, List.append_assoc, List.nil_append] at h
    have hdelimited' : ∀ entry ∈ entries, Delimited EntryShows entry := fun entry hentry =>
      delimited_entryShows (hdelimited entry hentry)
    obtain ⟨rfl, hrest⟩ := joined_append_inj ends_brace (by decide) unclosed_entryShows hxs hys
      hdelimited' (List.cons.inj h).2
    exact ⟨rfl, hrest⟩
  | _ => exact absurd hkind nofun

/-- **The debug form of a value is delimited.** -/
theorem delimited_of_readable {d : Datum} (hd : d.Readable) : Delimited Shows d := by
  induction hd with
  | unit =>
    refine delimited_of_kind fun e he hkind t u r r' ht hu _ _ h => ?_
    cases he with
    | unit =>
      rw [← Except.ok.inj ht, ← Except.ok.inj hu] at h
      exact ⟨rfl, List.append_cancel_left h⟩
    | _ => exact absurd hkind nofun
  | bool b =>
    refine delimited_of_kind fun e he hkind t u r r' ht hu _ _ h => ?_
    cases he with
    | bool b' =>
      rw [← Except.ok.inj ht, ← Except.ok.inj hu] at h
      cases b <;> cases b'
      · exact ⟨rfl, List.append_cancel_left h⟩
      · exact absurd (List.cons.inj h).1 nofun
      · exact absurd (List.cons.inj h).1 nofun
      · exact ⟨rfl, List.append_cancel_left h⟩
    | _ => exact absurd hkind nofun
  | int n =>
    refine delimited_of_kind fun e he hkind t u r r' ht hu hr hr' h => ?_
    cases he with
    | int m =>
      rw [← Except.ok.inj ht, ← Except.ok.inj hu] at h
      obtain ⟨rfl, hrest⟩ := integerText_append_inj hr hr' h
      exact ⟨rfl, hrest⟩
    | _ => exact absurd hkind nofun
  | char c =>
    refine delimited_of_kind fun e he hkind t u r r' ht hu _ _ h => ?_
    cases he with
    | char c' =>
      rw [← Except.ok.inj ht, ← Except.ok.inj hu] at h
      obtain ⟨rfl, hrest⟩ := debugChar_append_inj h
      exact ⟨rfl, hrest⟩
    | _ => exact absurd hkind nofun
  | string s =>
    refine delimited_of_kind fun e he hkind t u r r' ht hu _ _ h => ?_
    cases he with
    | string s' =>
      rw [← Except.ok.inj ht, ← Except.ok.inj hu] at h
      obtain ⟨hs, hrest⟩ := debugString_append_inj h
      rw [String.toList_inj.mp hs]
      exact ⟨rfl, hrest⟩
    | _ => exact absurd hkind nofun
  | array hitems ih => exact delimited_array hitems ih
  | map hkeys _ hvalues ih => exact delimited_map hkeys hvalues ih

/-- Only equal values have equal debug forms. -/
theorem Readable.eq_of_debug {d e : Datum} (hd : d.Readable) (he : e.Readable)
    (heq : d.debug = e.debug) : d = e := by
  obtain ⟨t, ht⟩ := hd.exists_shows
  exact (delimited_of_readable hd e t t [] [] ht ⟨he, heq ▸ ht.2⟩ ends_nil ends_nil rfl).1

/-- **Debug forms are unambiguous.**  Values made of unit, truth values, integers, texts, arrays and
maps with string keys have debug forms, and only equal values have equal ones. -/
theorem eq_of_debug_eq {d e : Datum} (hd : d.Readable) (he : e.Readable) :
    (∃ t, d.debug = .ok t) ∧ (d.debug = e.debug → d = e) := by
  obtain ⟨t, ht⟩ := hd.exists_shows
  exact ⟨⟨t, ht.2⟩, hd.eq_of_debug he⟩

/-- A map whose key looks like the end of one entry and the start of another is not shown like a
map with these two entries, and its character not like the string of the same letter. -/
theorem debug_ne_lookalike :
    let d : Datum := .map [(.string "a\": 1, \"b", .array [.scalar (.char 'c'), .string "c"])]
    let e : Datum := .map [(.string "a", .int 1), (.string "b", .array [.string "c", .string "c"])]
    d.Readable ∧ e.Readable ∧ (∃ t, d.debug = .ok t) ∧ d.debug ≠ e.debug := by
  intro d e
  have hd : d.Readable := by
    refine .map (by simp) (by simp) ?_
    simp [Readable.array, Readable.char, Readable.string]
  have he : e.Readable := by
    refine .map (by simp) (by simp [string]) ?_
    simp [Readable.array, Readable.int, Readable.string]
  obtain ⟨hform, hinj⟩ := eq_of_debug_eq hd he
  have hne : d ≠ e := by simp [d, e, Datum.string]
  exact ⟨hd, he, hform, fun h => hne (hinj h)⟩

end Datum
end ScriptHost
