/-
Numerals, written and read back.

* `ofDigits_toDigits` — the decimal digits of a number spell it;
* `toDigits_head` — and do not begin with a zero, unless it is the number zero;
* `hexPadded_four` — a code unit is written with four hexadecimal digits, and they
  spell it.
-/
import AnalyzerBridge.Number.Integer
import AnalyzerBridge.Text.Quoted
import Mathlib.Data.List.Basic

namespace AnalyzerBridge.Text

/-! ### Decimal digits -/

theorem digitValue?_digitChar : ∀ d < 10, digitValue? (Nat.digitChar d) = some d := by
  decide

theorem isAsciiDigit_digitChar : ∀ d < 10, isAsciiDigit (Nat.digitChar d) = true := by
  decide

theorem ofDigits_snoc (base : Nat) (digits : List Nat) (d : Nat) :
    ofDigits base (digits ++ [d]) = ofDigits base digits * base + d := by
  rw [ofDigits, List.foldl_append]
  rfl

/-- The decimal digits of a number spell it. -/
theorem ofDigits_toDigits (n : Nat) :
    ofDigits 10 ((Nat.toDigits 10 n).filterMap digitValue?) = n := by
  induction n using Nat.strongRecOn with
  | ind n ih =>
    by_cases hn : n < 10
    · rw [Nat.toDigits_of_lt_base hn, List.filterMap_cons_some (digitValue?_digitChar n hn)]
      show 0 * 10 + n = n
      omega
    · have hlast : n % 10 < 10 := Nat.mod_lt n (by decide)
      rw [Nat.toDigits_of_base_le (by decide) (Nat.not_lt.mp hn), List.filterMap_append,
        List.filterMap_cons_some (digitValue?_digitChar _ hlast), List.filterMap_nil, ofDigits_snoc,
        ih (n / 10) (by omega)]
      omega

theorem isAsciiDigit_of_mem_toDigits {n : Nat} {c : Char} (h : c ∈ Nat.toDigits 10 n) :
    isAsciiDigit c = true := by
  induction n using Nat.strongRecOn with
  | ind n ih =>
    by_cases hn : n < 10
    · rw [Nat.toDigits_of_lt_base hn] at h
      obtain rfl := List.mem_singleton.mp h
      exact isAsciiDigit_digitChar n hn
    · rw [Nat.toDigits_of_base_le (by decide) (Nat.not_lt.mp hn)] at h
      rcases List.mem_append.mp h with h | h
      · exact ih (n / 10) (by omega) h
      · obtain rfl := List.mem_singleton.mp h
        exact isAsciiDigit_digitChar _ (Nat.mod_lt n (by decide))

theorem isDigit_of_mem_toDigits {n : Nat} {c : Char} (h : c ∈ Nat.toDigits 10 n) :
    isDigit c = true := by
  have hascii := isAsciiDigit_of_mem_toDigits h
  rw [isAsciiDigit, Bool.and_eq_true, decide_eq_true_eq, decide_eq_true_eq, Char.le_def,
    Char.le_def, UInt32.le_iff_toNat_le, UInt32.le_iff_toNat_le] at hascii
  have hlow : 48 ≤ c.toNat := hascii.1
  have hhigh : c.toNat ≤ 57 := hascii.2
  simp [isDigit, digitValue?, hlow, hhigh, show c.toNat < 128 by omega]

/-- The digits of a number other than zero do not begin with a zero. -/
theorem toDigits_head {n : Nat} (hn : n ≠ 0) :
    ∃ c rest, Nat.toDigits 10 n = c :: rest ∧ c ≠ '0' := by
  induction n using Nat.strongRecOn with
  | ind n ih =>
    by_cases hlt : n < 10
    · have hne : ∀ d < 10, d ≠ 0 → Nat.digitChar d ≠ '0' := by decide
      exact ⟨_, [], Nat.toDigits_of_lt_base hlt, hne n hlt hn⟩
    · obtain ⟨c, rest, h, hc⟩ := ih (n / 10) (by omega) (by omega)
      refine ⟨c, rest ++ [Nat.digitChar (n % 10)], ?_, hc⟩
      rw [Nat.toDigits_of_base_le (by decide) (Nat.not_lt.mp hlt), h, List.cons_append]

/-! ### Hexadecimal digits -/

theorem hexValue?_digitChar : ∀ d < 16, hexValue? (Nat.digitChar d) = some d := by
  decide

theorem hexPadded_one {n : Nat} (hn : n < 16) : (hexPadded 1 n).toList = [Nat.digitChar n] := by
  rw [hexPadded, String.toList_ofList, Nat.toDigits_of_lt_base hn]
  rfl

/-- One more place is one more digit at the end. -/
theorem hexPadded_succ {width n : Nat} (hwidth : 0 < width) :
    (hexPadded (width + 1) n).toList =
      (hexPadded width (n / 16)).toList ++ [Nat.digitChar (n % 16)] := by
  simp only [hexPadded, String.toList_ofList]
  by_cases hlt : n < 16
  · -- the number is one digit, and so is the zero in front of it
    have hzero : n / 16 = 0 := Nat.div_eq_of_lt hlt
    have hdigits : Nat.toDigits 16 0 = ['0'] := rfl
    rw [Nat.toDigits_of_lt_base hlt, hzero, hdigits, Nat.mod_eq_of_lt hlt]
    obtain ⟨k, rfl⟩ : ∃ k, width = k + 1 := ⟨width - 1, by omega⟩
    show List.replicate (k + 1) '0' ++ _ = (List.replicate k '0' ++ ['0']) ++ _
    rw [List.replicate_succ']
  · have hdigits := Nat.toDigits_of_base_le (b := 16) (by decide) (Nat.not_lt.mp hlt)
    have hlength : (Nat.toDigits 16 n).length = (Nat.toDigits 16 (n / 16)).length + 1 := by
      rw [hdigits, List.length_append, List.length_singleton]
    rw [hdigits, ← List.append_assoc, List.length_append, List.length_singleton,
      Nat.add_sub_add_right]

/-- A code unit is written with four digits, and they spell it. -/
theorem hexPadded_four {n : Nat} (hn : n < 65536) :
    ∃ a b c d, (hexPadded 4 n).toList = [a, b, c, d] ∧
      [a, b, c, d].mapM hexValue? = some [n / 4096, n / 256 % 16, n / 16 % 16, n % 16] := by
  have ha : n / 4096 < 16 := by omega
  refine ⟨Nat.digitChar (n / 4096), Nat.digitChar (n / 256 % 16), Nat.digitChar (n / 16 % 16),
    Nat.digitChar (n % 16), ?_, ?_⟩
  · have htwo : n / 16 / 16 = n / 256 := by omega
    have hthree : n / 256 / 16 = n / 4096 := by omega
    rw [hexPadded_succ (by decide), hexPadded_succ (by decide), hexPadded_succ (by decide), htwo,
      hthree, hexPadded_one ha]
    rfl
  · simp only [List.mapM_cons, List.mapM_nil, hexValue?_digitChar _ ha,
      hexValue?_digitChar _ (Nat.mod_lt _ (by decide : 0 < 16))]
    rfl

end AnalyzerBridge.Text
