import Flowfile.Json.Reader
import Flowfile.Json.Writer
import Flowfile.Proofs.Text.Digits

/-! Strings as they are written in JSON and read back, character by character.

An escape of four digits is only read where something follows it. That is so in a string, where the
closing quote comes at the latest. -/

namespace Flowfile.Json

theorem hexPadded_four {n : Nat} (small : n < 0x10000) :
    ∃ a b c d, Text.hexPadded 4 n = [a, b, c, d] ∧ readUnit? a b c d = some n := by
  have few : (Nat.toDigits 16 n).length ≤ 4 :=
    (Nat.length_toDigits_le_iff (by decide) (by decide)).mpr small
  have length : (Text.hexPadded 4 n).length = 4 := by
    rw [Text.hexPadded, List.length_append, List.length_replicate]
    omega
  have value : Text.readDigits 16 (Text.hexPadded 4 n) = n := by
    calc Text.readDigits 16 (Text.hexPadded 4 n)
        = Text.appendDigits 16 0 (Text.hexPadded 4 n) := Text.readDigits_eq 16 _
      _ = Text.appendDigits 16 0 (Nat.toDigits 16 n) := Text.appendDigits_zeros 16 _ _
      _ = n := Text.appendDigits_toDigits (by decide) (by decide) n
  have all : (Text.hexPadded 4 n).all Text.isHexDigit = true := by
    rw [Text.hexPadded, List.all_append, Bool.and_eq_true, List.all_eq_true, List.all_eq_true]
    constructor
    · intro c member
      rw [List.eq_of_mem_replicate member]
      rfl
    · intro c member
      exact Text.isHexDigit_of_mem_toDigits (by decide) (by decide) member
  generalize Text.hexPadded 4 n = digits at length value all
  match digits, length with
  | [a, b, c, d], _ =>
      refine ⟨a, b, c, d, rfl, ?_⟩
      rw [readUnit?, if_pos all, value]

theorem readString_skip (opened passed rest : Text) :
    readString opened passed.length (passed ++ rest) = readString opened 0 rest := by
  induction passed with
  | nil => rfl
  | cons c passed ih => exact ih

theorem readString_escape {opened passed rest : Text} {c : Char}
    (escape : readEscape opened (passed ++ rest) = .ok (c, passed.length)) :
    readString opened 0 ('\\' :: (passed ++ rest)) = consTo c (readString opened 0 rest) := by
  rw [readString, if_neg (by decide), if_pos rfl, escape]
  exact congrArg (consTo c) (readString_skip opened passed rest)

section

variable {opened rest : Text}

theorem readEscape_simple {letter c : Char} (simple : simpleEscape? letter = some c) :
    readEscape opened (letter :: rest) = .ok (c, 1) := by
  have other : letter ≠ 'u' := by
    rintro rfl
    cases simple
  rw [readEscape.eq_def]
  simp [other, simple]

theorem readEscape_unit (follows : rest ≠ []) {unit : Nat} (small : unit < 0x10000)
    (alone : isHighSurrogate unit = false) :
    readEscape opened ('u' :: Text.hexPadded 4 unit ++ rest) = .ok (unitChar unit, 5) := by
  obtain ⟨a, b, c, d, digits, value⟩ := hexPadded_four small
  have more : rest.isEmpty = false := List.isEmpty_eq_false_iff.mpr follows
  rw [digits]
  simp [readEscape, value, more, alone]

theorem readEscape_pair (follows : rest ≠ []) {high low : Nat} (first : isHighSurrogate high = true)
    (second : isLowSurrogate low = true) :
    readEscape opened ('u' :: Text.hexPadded 4 high ++ unicodeEscape low ++ rest) =
      .ok (pairChar high low, 11) := by
  have small : high < 0x10000 := by
    simp only [isHighSurrogate, Bool.and_eq_true, decide_eq_true_eq] at first
    omega
  have small' : low < 0x10000 := by
    simp only [isLowSurrogate, Bool.and_eq_true, decide_eq_true_eq] at second
    omega
  obtain ⟨a, b, c, d, digits, value⟩ := hexPadded_four small
  obtain ⟨e, f, g, h, digits', value'⟩ := hexPadded_four small'
  obtain ⟨next, more, rfl⟩ := List.exists_cons_of_ne_nil follows
  rw [unicodeEscape, digits, digits']
  simp [readEscape, value, value', first, second]

theorem readString_simple {letter c : Char} (simple : simpleEscape? letter = some c) :
    readString opened 0 ('\\' :: letter :: rest) = consTo c (readString opened 0 rest) := by
  change readString opened 0 ('\\' :: ([letter] ++ rest)) = _
  exact readString_escape (readEscape_simple simple)

theorem readString_plain {c : Char} (quote : c ≠ '"') (escape : c ≠ '\\') (shown : 0x20 ≤ c.toNat) :
    readString opened 0 (c :: rest) = consTo c (readString opened 0 rest) := by
  rw [readString, if_neg quote, if_neg escape, if_neg (by omega)]

theorem readString_unit (follows : rest ≠ []) {c : Char} (basic : c.toNat < 0x10000) :
    readString opened 0 (unicodeEscape c.toNat ++ rest) = consTo c (readString opened 0 rest) := by
  -- No character has the number of half a pair.
  have apart : c.toNat < 0xD800 ∨ 0xDFFF < c.toNat := by
    rcases c.valid with low | ⟨high, -⟩
    · exact .inl low
    · exact .inr high
  have alone : isHighSurrogate c.toNat = false := by
    simp only [isHighSurrogate, Bool.and_eq_false_iff, decide_eq_false_iff_not]
    omega
  have same : unitChar c.toNat = c := by
    rw [unitChar, if_neg (by simp only [Bool.and_eq_true, decide_eq_true_eq]; omega),
      Char.ofNat_toNat]
  have read : readEscape opened ('u' :: Text.hexPadded 4 c.toNat ++ rest) = _ :=
    readEscape_unit follows basic alone
  obtain ⟨a, b, d, e, digits, -⟩ := hexPadded_four basic
  rw [digits, same] at read
  rw [unicodeEscape, digits]
  exact readString_escape read

theorem readString_pair (follows : rest ≠ []) {c : Char} (astral : 0x10000 ≤ c.toNat) :
    readString opened 0 (unicodeEscape (0xD800 + (c.toNat - 0x10000) / 0x400) ++
        unicodeEscape (0xDC00 + (c.toNat - 0x10000) % 0x400) ++ rest) =
      consTo c (readString opened 0 rest) := by
  have last : c.toNat < 0x110000 := by
    rcases c.valid with low | ⟨-, high⟩
    · exact Nat.lt_trans low (by decide)
    · exact high
  have same : 0x10000 + (c.toNat - 0x10000) / 0x400 * 0x400 + (c.toNat - 0x10000) % 0x400 =
      c.toNat := by
    omega
  generalize upper : (c.toNat - 0x10000) / 0x400 = high at same ⊢
  generalize lower : (c.toNat - 0x10000) % 0x400 = low at same ⊢
  have first : isHighSurrogate (0xD800 + high) = true := by
    simp only [isHighSurrogate, Bool.and_eq_true, decide_eq_true_eq]
    omega
  have second : isLowSurrogate (0xDC00 + low) = true := by
    simp only [isLowSurrogate, Bool.and_eq_true, decide_eq_true_eq]
    omega
  have paired : pairChar (0xD800 + high) (0xDC00 + low) = c := by
    rw [pairChar, Nat.add_sub_cancel_left, Nat.add_sub_cancel_left, same, Char.ofNat_toNat]
  have read : readEscape opened ('u' :: Text.hexPadded 4 (0xD800 + high) ++
      unicodeEscape (0xDC00 + low) ++ rest) = _ :=
    readEscape_pair follows first second
  obtain ⟨a, b, d, e, digits, -⟩ := hexPadded_four (n := 0xD800 + high) (by omega)
  obtain ⟨a', b', d', e', digits', -⟩ := hexPadded_four (n := 0xDC00 + low) (by omega)
  rw [unicodeEscape, digits, digits', paired] at read
  rw [unicodeEscape, unicodeEscape, digits, digits']
  exact readString_escape read

theorem readString_writeChar (follows : rest ≠ []) (c : Char) :
    readString opened 0 (writeChar c ++ rest) = consTo c (readString opened 0 rest) := by
  rw [writeChar]
  split
  · rename_i quote
    subst quote
    exact readString_simple rfl
  rename_i quote
  split
  · rename_i escape
    subst escape
    exact readString_simple rfl
  rename_i escape
  split
  · rename_i feed
    subst feed
    exact readString_simple rfl
  split
  · rename_i back
    subst back
    exact readString_simple rfl
  split
  · rename_i tab
    subst tab
    exact readString_simple rfl
  split
  · rename_i number
    refine readString_simple ?_
    rw [← Char.ofNat_toNat c, number]
    rfl
  split
  · rename_i number
    refine readString_simple ?_
    rw [← Char.ofNat_toNat c, number]
    rfl
  split
  · rename_i shown
    simp only [Bool.and_eq_true, decide_eq_true_eq] at shown
    exact readString_plain quote escape shown.1
  split
  · rename_i basic
    exact readString_unit follows basic
  · rename_i astral
    exact readString_pair follows (Nat.le_of_not_lt astral)

end

theorem readString_writeString (opened s rest : Text) :
    readString opened 0 (s.flatMap writeChar ++ '"' :: rest) = .ok (s, rest) := by
  induction s with
  | nil => rfl
  | cons c s ih =>
      rw [List.flatMap_cons, List.append_assoc, readString_writeChar (by simp), ih]
      rfl

end Flowfile.Json
