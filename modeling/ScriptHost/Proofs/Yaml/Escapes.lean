import Mathlib.Algebra.Group.Nat.Defs
import ScriptHost.Yaml.Scalars

/-!
# Escapes in double quotes are read back

A character that cannot stand in double quotes is written as a backslash and a letter of its own, or
as a backslash, a letter for a width and so many digits of its code point.

* `unescapeLetter?_escapeLetter?`: the letters of the writer are letters of the reader.
* `readHex?_upperHex`: digits of a width give the code point back.
* `isEscape_escapeText`: so every character is read back from its escape.
-/

namespace ScriptHost
namespace Yaml

/-! ## Letters -/

/-- A letter that the writer puts behind a backslash stands for the same character. -/
theorem unescapeLetter?_escapeLetter? {c e : Char} (h : escapeLetter? c = some e) :
    unescapeLetter? e = some c := by
  have hc : Char.ofNat c.toNat = c := Char.ofNat_toNat c
  rw [escapeLetter?.eq_def] at h
  split at h
  all_goals cases h
  all_goals
    rename_i hcode
    rw [hcode] at hc
    rw [← hc]
    rfl

/-! ## Digits -/

/-- The value of a digit in upper case. -/
theorem hexDigit?_toUpper_digitChar {d : Nat} (hd : d < 16) :
    Text.hexDigit? (Nat.digitChar d).toUpper = some d := by
  have hall : ∀ d < 16, Text.hexDigit? (Nat.digitChar d).toUpper = some d := by decide
  exact hall d hd

/-- The number that digits denote behind a number that is read already. -/
def hexFrom? (n : Nat) (text : List Char) : Option Nat :=
  text.foldlM (fun n c => (Text.hexDigit? c).map (16 * n + ·)) n

theorem hexFrom?_cons {c : Char} {d : Nat} (hc : Text.hexDigit? c = some d) (n : Nat)
    (text : List Char) : hexFrom? n (c :: text) = hexFrom? (16 * n + d) text := by
  rw [hexFrom?, List.foldlM_cons, hc]
  rfl

/-- The digits of a number are read as that number. -/
theorem hexFrom?_hexDigits (n : Nat) (rest : List Char) :
    hexFrom? 0 ((Text.hexDigits n).map Char.toUpper ++ rest) = hexFrom? n rest := by
  induction n using Nat.strongRecOn generalizing rest with
  | ind n ih =>
    rw [Text.hexDigits, Nat.toDigits_eq_if (by decide)]
    split
    · rename_i hn
      rw [List.map_singleton, List.singleton_append, hexFrom?_cons (hexDigit?_toUpper_digitChar hn),
        Nat.mul_zero, Nat.zero_add]
    · -- the last digit is read behind the others
      have hless : n / 16 < n := by omega
      have hdigit := hexDigit?_toUpper_digitChar (Nat.mod_lt n (by decide : 0 < 16))
      have hlast := ih (n / 16) hless ((Nat.digitChar (n % 16)).toUpper :: rest)
      rw [Text.hexDigits] at hlast
      rw [List.map_append, List.append_assoc, List.map_singleton, List.singleton_append, hlast,
        hexFrom?_cons hdigit, Nat.div_add_mod]

theorem hexFrom?_zeros (k : Nat) (rest : List Char) :
    hexFrom? 0 ((List.replicate k '0').map Char.toUpper ++ rest) = hexFrom? 0 rest := by
  induction k with
  | zero => rfl
  | succ k ih =>
    have hzero : Text.hexDigit? (Char.toUpper '0') = some 0 := by decide
    rw [List.replicate_succ, List.map_cons, List.cons_append, hexFrom?_cons hzero]
    exact ih

/-- Digits of a width are read as their number. -/
theorem readHex?_upperHex (width n : Nat) : Text.readHex? (upperHex width n) = some n := by
  have hread := hexFrom?_hexDigits n []
  rw [List.append_nil] at hread
  show hexFrom? 0 (upperHex width n) = some n
  rw [upperHex, Text.hexPadded, List.map_append, hexFrom?_zeros, hread]
  rfl

theorem length_upperHex {width n : Nat} (hwidth : 0 < width) (hn : n < 16 ^ width) :
    (upperHex width n).length = width := by
  have hdigits : (Nat.toDigits 16 n).length ≤ width :=
    (Nat.length_toDigits_le_iff (by decide) hwidth).mpr hn
  simp only [upperHex, Text.hexPadded, Text.hexDigits, List.length_map, List.length_append,
    List.length_replicate]
  omega

/-! ## Escapes -/

/-- A text that the reader takes for a character. -/
inductive IsEscape : List Char → Char → Prop
  | letter {e c : Char} (hletter : unescapeLetter? e = some c) (hbreak : isBreak e = false) :
      IsEscape ['\\', e] c
  | code {e c : Char} {digits : List Char} (hletter : unescapeLetter? e = none)
      (hbreak : isBreak e = false) (hwidth : escapeWidth? e = some digits.length)
      (hcode : (Text.readHex? digits).bind Text.ofCodePoint? = some c) :
      IsEscape ('\\' :: e :: digits) c

theorem isBreak_of_unescapeLetter? {e c : Char} (h : unescapeLetter? e = some c) :
    isBreak e = false := by
  rw [unescapeLetter?.eq_def] at h
  split at h <;> cases h <;> rfl

/-- The digits of the code point of a character give the character. -/
theorem isEscape_upperHex {e : Char} {width : Nat} (hletter : unescapeLetter? e = none)
    (hbreak : isBreak e = false) (hwidth : escapeWidth? e = some width) (hpos : 0 < width)
    (c : Char) (hc : c.toNat < 16 ^ width) : IsEscape ('\\' :: e :: upperHex width c.toNat) c := by
  refine .code hletter hbreak ?_ ?_
  · rw [length_upperHex hpos hc, hwidth]
  · have hvalid : c.toNat.isValidChar := c.valid
    rw [readHex?_upperHex, Option.bind_some, Text.ofCodePoint?, if_pos hvalid, Char.ofNat_toNat]

/-- **Every character is read back from its escape.** -/
theorem isEscape_escapeText (c : Char) : IsEscape (escapeText c) c := by
  rw [escapeText]
  split
  · rename_i e he
    have hletter := unescapeLetter?_escapeLetter? he
    exact .letter hletter (isBreak_of_unescapeLetter? hletter)
  · split
    · rename_i hc
      exact isEscape_upperHex rfl (by decide) rfl (by decide) c hc
    · split
      · rename_i hc
        exact isEscape_upperHex rfl (by decide) rfl (by decide) c hc
      · have hc : c.toNat < 0x110000 := by
          have hvalid := c.valid
          simp only [UInt32.isValidChar, Nat.isValidChar] at hvalid
          have htoNat : c.toNat = c.val.toNat := rfl
          omega
        exact isEscape_upperHex rfl (by decide) rfl (by decide) c
          (Nat.lt_trans hc (by decide))

end Yaml
end ScriptHost
