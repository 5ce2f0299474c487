import ScriptHost.Text.Escape

/-!
# Escaped text is read back

Between two quotes a text stands with everything escaped that could be taken for the closing
quote or for another escape.  The decoder of `Text.Escape` works on one character at a time, so
what it makes of an escaped text follows from what it makes of one escaped character.

* `unescapeFrom_hexDigits`: the digits of a code point leave the decoder with that code point.
* `unescapeFrom_escapeChar`: one escaped character is read back as that character.
* `unescape_escape`: so is a whole text.
* `escape_append_quote_inj`: a text between quotes ends where its quote ends, whatever follows.
* `isPrintable_of_mem_escape`: no character of an escaped text is unprintable.
* `exists_split_of_escape`: a quote in an escaped text is the escape of a quote of the text.
* `delimits_escape`: all of it together.

That a text ends where its quote ends needs no look at the single escapes.  An unescaped quote
stands for itself in the decoder, so if it came early, the decoder would give a text whose own
escaped form has a backslash there.
-/

namespace ScriptHost
namespace Text

/-- The characters that texts are put between. -/
inductive IsQuote : Char → Prop where
  | single : IsQuote '\''
  | double : IsQuote '"'

variable {quote c : Char} {s t r r' : List Char}

/-! ## Steps of the decoder -/

/-- A character in the middle of an escape completes nothing. -/
theorem unescapeFrom_of_silent {state next : EscapeState} {rest : List Char}
    (h : state.step? quote c = some (next, [])) :
    unescapeFrom quote state (c :: rest) = unescapeFrom quote next rest := by
  simp [unescapeFrom, h]

/-- The last character of an escape completes the character that it stands for. -/
theorem unescapeFrom_of_complete {state : EscapeState} {d : Char} {rest : List Char}
    (h : state.step? quote c = some (.plain, [d])) :
    unescapeFrom quote state (c :: rest) = (unescapeFrom quote .plain rest).map (d :: ·) := by
  simp [unescapeFrom, h]

theorem step?_backslash : EscapeState.plain.step? quote '\\' = some (.backslash, []) := rfl

theorem step?_plain (h : c ≠ '\\') : EscapeState.plain.step? quote c = some (.plain, [c]) :=
  if_neg h

theorem step?_quote : EscapeState.backslash.step? quote quote = some (.plain, [quote]) := if_pos rfl

/-- A letter after a backslash stands for the character that it was chosen for. -/
theorem step?_letter {letter : Char} (hquote : IsQuote quote)
    (hletter : escapeLetter? c = some letter) :
    EscapeState.backslash.step? quote letter = some (.plain, [c]) := by
  rw [escapeLetter?.eq_def] at hletter
  split at hletter <;> cases hletter <;> cases hquote <;> rfl

/-! ## Code points -/

theorem hexValue?_digitChar {d : Nat} (hd : d < 16) : hexValue? (Nat.digitChar d) = some d := by
  have hall : ∀ d < 16, hexValue? (Nat.digitChar d) = some d := by decide
  exact hall d hd

theorem unescapeFrom_digitChar (quote : Char) (n : Nat) {d : Nat} (hd : d < 16)
    (rest : List Char) :
    unescapeFrom quote (.code n) (Nat.digitChar d :: rest) =
      unescapeFrom quote (.code (16 * n + d)) rest := by
  have hvalue := hexValue?_digitChar hd
  have hbrace : Nat.digitChar d ≠ '\x7d' := by
    intro h
    rw [h] at hvalue
    exact absurd hvalue nofun
  refine unescapeFrom_of_silent ?_
  rw [EscapeState.step?, if_neg hbrace, hvalue]
  rfl

/-- The digits of a code point leave the decoder with that code point. -/
theorem unescapeFrom_hexDigits (quote : Char) (n : Nat) (rest : List Char) :
    unescapeFrom quote (.code 0) (hexDigits n ++ rest) = unescapeFrom quote (.code n) rest := by
  induction n using Nat.strongRecOn generalizing rest with
  | ind n ih =>
    rw [hexDigits, Nat.toDigits_eq_if (by decide)]
    split
    · rename_i hn
      rw [List.singleton_append, unescapeFrom_digitChar quote 0 hn, Nat.mul_zero, Nat.zero_add]
    · -- the last digit is read from the code point of the others
      have hless : n / 16 < n := by omega
      have hlast := ih (n / 16) hless (Nat.digitChar (n % 16) :: rest)
      rw [hexDigits] at hlast
      rw [List.append_assoc, List.singleton_append, hlast,
        unescapeFrom_digitChar quote _ (Nat.mod_lt n (by decide)), Nat.div_add_mod]

/-! ## One character -/

/-- One escaped character is read back. -/
theorem unescapeFrom_escapeChar (hquote : IsQuote quote) (c : Char) (rest : List Char) :
    unescapeFrom quote .plain (escapeChar quote c ++ rest) =
      (unescapeFrom quote .plain rest).map (c :: ·) := by
  rw [escapeChar]
  split
  · rename_i hc
    rw [hc]
    exact (unescapeFrom_of_silent step?_backslash).trans (unescapeFrom_of_complete step?_quote)
  · split
    · rename_i letter hletter
      have hcomplete := step?_letter hquote hletter
      exact (unescapeFrom_of_silent step?_backslash).trans (unescapeFrom_of_complete hcomplete)
    · rename_i hletter
      split
      · refine unescapeFrom_of_complete (step?_plain ?_)
        rintro rfl
        exact absurd hletter nofun
      · have hu : EscapeState.backslash.step? quote 'u' = some (.letterU, []) := by
          cases hquote <;> rfl
        have hopen : EscapeState.letterU.step? quote '\x7b' = some (.code 0, []) := rfl
        have hclose : (EscapeState.code c.toNat).step? quote '\x7d' = some (.plain, [c]) := by
          rw [EscapeState.step?, if_pos rfl, Char.ofNat_toNat]
        simp only [List.cons_append, List.append_assoc, List.nil_append]
        rw [unescapeFrom_of_silent step?_backslash, unescapeFrom_of_silent hu,
          unescapeFrom_of_silent hopen, unescapeFrom_hexDigits, unescapeFrom_of_complete hclose]

/-! ## Whole texts -/

theorem escape_cons (quote c : Char) (s : List Char) :
    escape quote (c :: s) = escapeChar quote c ++ escape quote s := List.flatMap_cons

theorem escape_append (quote : Char) (s t : List Char) :
    escape quote (s ++ t) = escape quote s ++ escape quote t := List.flatMap_append

theorem unescapeFrom_escape_append (hquote : IsQuote quote) (s rest : List Char) :
    unescapeFrom quote .plain (escape quote s ++ rest) =
      (unescapeFrom quote .plain rest).map (s ++ ·) := by
  induction s with
  | nil => simp [escape]
  | cons c s ih =>
    rw [escape_cons, List.append_assoc, unescapeFrom_escapeChar hquote, ih, Option.map_map]
    rfl

/-- **An escaped text is read back.** -/
theorem unescape_escape (hquote : IsQuote quote) (s : List Char) :
    unescape quote (escape quote s) = some s := by
  have hread := unescapeFrom_escape_append hquote s []
  rw [List.append_nil] at hread
  rw [unescape, hread]
  simp [unescapeFrom]

theorem escape_inj (hquote : IsQuote quote) (h : escape quote s = escape quote t) : s = t := by
  have hs := unescape_escape hquote s
  rw [h, unescape_escape hquote t] at hs
  exact (Option.some.inj hs).symm

/-- No escaped text goes on with a bare quote where another one ends. -/
theorem escape_ne_append_quote (hquote : IsQuote quote) :
    escape quote t ≠ escape quote s ++ quote :: r := by
  intro h
  have hread := unescape_escape hquote t
  have hplain : quote ≠ '\\' := by cases hquote <;> decide
  rw [h, unescape, unescapeFrom_escape_append hquote,
    unescapeFrom_of_complete (step?_plain hplain)] at hread
  obtain ⟨u, hu, hsplit⟩ := Option.map_eq_some_iff.mp hread
  obtain ⟨v, -, rfl⟩ := Option.map_eq_some_iff.mp hu
  -- so `t` is `s`, a quote and more, and its escaped form has a backslash for that quote
  rw [← hsplit, escape_append, escape_cons, escapeChar, if_pos rfl] at h
  exact hplain (List.cons.inj (List.append_cancel_left h)).1.symm

/-- **A text between quotes ends where its quote ends.** -/
theorem escape_append_quote_inj (hquote : IsQuote quote)
    (h : escape quote s ++ quote :: r = escape quote t ++ quote :: r') : s = t ∧ r = r' := by
  rcases List.append_eq_append_iff.mp h with ⟨w, ht, hr⟩ | ⟨w, hs, hr⟩
  · cases w with
    | nil =>
      rw [List.append_nil] at ht
      exact ⟨escape_inj hquote ht.symm, (List.cons.inj hr).2⟩
    | cons c w =>
      rw [← (List.cons.inj hr).1] at ht
      exact absurd ht (escape_ne_append_quote hquote)
  · cases w with
    | nil =>
      rw [List.append_nil] at hs
      exact ⟨escape_inj hquote hs, (List.cons.inj hr).2.symm⟩
    | cons c w =>
      rw [← (List.cons.inj hr).1] at hs
      exact absurd hs (escape_ne_append_quote hquote)

/-! ## The characters of an escaped text -/

/-- The digits of a number in base sixteen are such digits. -/
theorem exists_digitChar_of_mem (n : Nat) : ∀ c ∈ hexDigits n, ∃ d < 16, c = Nat.digitChar d := by
  induction n using Nat.strongRecOn with
  | ind n ih =>
    intro c hc
    rw [hexDigits, Nat.toDigits_eq_if (by decide)] at hc
    split at hc
    · rename_i hn
      exact ⟨n, hn, List.mem_singleton.mp hc⟩
    · have hless : n / 16 < n := by omega
      rcases List.mem_append.mp hc with hfirst | hlast
      · exact ih (n / 16) hless c hfirst
      · exact ⟨n % 16, Nat.mod_lt n (by decide), List.mem_singleton.mp hlast⟩

/-- One escaped character stands for itself, is the escape of the quote, or is made of characters
that are printable and are no quotes. -/
theorem escapeChar_cases (hquote : IsQuote quote) (c : Char) :
    c = quote ∧ escapeChar quote c = ['\\', quote] ∨
      c ≠ quote ∧ ∀ d ∈ escapeChar quote c, isPrintable d = true ∧ d ≠ quote := by
  rw [escapeChar]
  by_cases hc : c = quote
  · rw [if_pos hc, hc]
    exact .inl ⟨rfl, rfl⟩
  · rw [if_neg hc]
    refine .inr ⟨hc, ?_⟩
    have hbackslash : isPrintable '\\' = true ∧ '\\' ≠ quote := by cases hquote <;> decide
    split
    · rename_i letter hletter
      rw [List.forall_mem_cons, List.forall_mem_singleton]
      refine ⟨hbackslash, ?_⟩
      rw [escapeLetter?.eq_def] at hletter
      split at hletter <;> cases hletter <;> cases hquote <;> decide
    · split
      · rename_i hprintable
        exact List.forall_mem_singleton.mpr ⟨hprintable, hc⟩
      · have hletter : isPrintable 'u' = true ∧ 'u' ≠ quote := by cases hquote <;> decide
        have hopen : isPrintable '\x7b' = true ∧ '\x7b' ≠ quote := by cases hquote <;> decide
        have hclose : isPrintable '\x7d' = true ∧ '\x7d' ≠ quote := by cases hquote <;> decide
        have hdigit : ∀ d < 16, isPrintable (Nat.digitChar d) = true ∧ Nat.digitChar d ≠ quote := by
          cases hquote <;> decide
        rw [List.forall_mem_cons, List.forall_mem_cons, List.forall_mem_cons,
          List.forall_mem_append, List.forall_mem_singleton]
        refine ⟨hbackslash, hletter, hopen, ?_, hclose⟩
        intro d hd
        obtain ⟨n, hn, rfl⟩ := exists_digitChar_of_mem c.toNat d hd
        exact hdigit n hn

/-- **An escaped text is printable.** -/
theorem isPrintable_of_mem_escape (hquote : IsQuote quote) (hc : c ∈ escape quote s) :
    isPrintable c = true := by
  obtain ⟨d, -, hc⟩ := List.mem_flatMap.mp hc
  rcases escapeChar_cases hquote d with ⟨-, heq⟩ | ⟨-, hall⟩
  · have hbackslash : isPrintable '\\' = true := by decide
    have hself : isPrintable quote = true := by cases hquote <;> decide
    have hboth : ∀ e ∈ ['\\', quote], isPrintable e = true :=
      List.forall_mem_cons.mpr ⟨hbackslash, List.forall_mem_singleton.mpr hself⟩
    exact hboth c (heq ▸ hc)
  · exact (hall c hc).1

/-- **A quote in an escaped text is the second half of its own escape**: what stands before that is
the escaped form of what comes before a quote of the text. -/
theorem exists_split_of_escape (hquote : IsQuote quote)
    (h : escape quote s = r ++ quote :: r') :
    ∃ u v, s = u ++ quote :: v ∧ r = escape quote u ++ ['\\'] ∧ r' = escape quote v := by
  induction s generalizing r with
  | nil => exact absurd h.symm (List.append_ne_nil_of_right_ne_nil r (List.cons_ne_nil _ _))
  | cons c s ih =>
    rw [escape_cons] at h
    rcases List.append_eq_append_iff.mp h with ⟨w, rfl, hrest⟩ | ⟨w, hfirst, hrest⟩
    · -- the quote stands behind the escape of the first character
      obtain ⟨u, v, rfl, rfl, rfl⟩ := ih hrest
      exact ⟨c :: u, v, rfl, by rw [escape_cons, List.append_assoc], rfl⟩
    · cases w with
      | nil =>
        rw [List.nil_append] at hrest
        obtain ⟨u, v, rfl, hnil, rfl⟩ := ih (r := []) hrest.symm
        exact absurd hnil (List.append_ne_nil_of_right_ne_nil _ (List.cons_ne_nil _ _)).symm
      | cons d w =>
        -- it stands within that escape, so the first character is the quote
        obtain ⟨rfl, rfl⟩ := List.cons.inj hrest
        rcases escapeChar_cases hquote c with ⟨rfl, heq⟩ | ⟨-, hall⟩
        · have hplain : c ≠ '\\' := by cases hquote <;> decide
          rw [heq] at hfirst
          rcases r with _ | ⟨b, _ | ⟨b', r⟩⟩
          · exact absurd (List.cons.inj hfirst).1.symm hplain
          · obtain ⟨rfl, htail⟩ := List.cons.inj hfirst
            obtain ⟨-, rfl⟩ := List.cons.inj htail
            exact ⟨[], s, rfl, rfl, rfl⟩
          · have hlength := congrArg List.length hfirst
            simp at hlength
        · have hmem : quote ∈ escapeChar quote c := by
            rw [hfirst]
            exact List.mem_append_right _ List.mem_cons_self
          exact absurd rfl (hall quote hmem).2

/-- **Escaping is reversible and marks its own end.**  An escaped text is printable, each quote in it
belongs with the backslash before it to the escape of a quote, the decoder gives the text back, and
between quotes it ends where the quote ends. -/
theorem delimits_escape (hquote : IsQuote quote) (s : List Char) :
    (∀ c ∈ escape quote s, isPrintable c = true) ∧
      (∀ before after, escape quote s = before ++ quote :: after →
        ∃ u v, s = u ++ quote :: v ∧ before = escape quote u ++ ['\\'] ∧ after = escape quote v) ∧
      unescape quote (escape quote s) = some s ∧
      ∀ t r r', escape quote s ++ quote :: r = escape quote t ++ quote :: r' → s = t ∧ r = r' :=
  ⟨fun _ => isPrintable_of_mem_escape hquote, fun _ _ => exists_split_of_escape hquote,
    unescape_escape hquote s, fun _ _ _ => escape_append_quote_inj hquote⟩

/-- A null before a digit, a quote, and a character without a shape before a letter that could be
one more digit of its code point. -/
def lookalike : List Char := ['\x00', '1', '"', '\u200b', 'f']

/-- The escaped form of `lookalike`. -/
def lookalikeEscaped : List Char :=
  ['\\', '0', '1'] ++ '\\' :: '"' :: ['\\', 'u', '\x7b', '2', '0', '0', 'b', '\x7d', 'f']

theorem delimits_escape_lookalike :
    IsQuote '"' ∧ escape '"' lookalike = lookalikeEscaped ∧
      (∀ c ∈ lookalikeEscaped, isPrintable c = true) ∧
      (∃ u v, lookalike = u ++ '"' :: v ∧ ['\\', '0', '1', '\\'] = escape '"' u ++ ['\\'] ∧
        ['\\', 'u', '\x7b', '2', '0', '0', 'b', '\x7d', 'f'] = escape '"' v) ∧
      unescape '"' lookalikeEscaped = some lookalike := by
  have hescaped : escape '"' lookalike = lookalikeEscaped := by decide +kernel
  obtain ⟨hprintable, hquotes, hread, -⟩ := delimits_escape .double lookalike
  rw [hescaped] at hprintable hquotes hread
  exact ⟨.double, hescaped, hprintable, hquotes _ _ rfl, hread⟩

end Text
end ScriptHost
