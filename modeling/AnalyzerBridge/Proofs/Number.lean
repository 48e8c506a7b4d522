/-
Reading runs of digits.

A run of decimal digits, of whatever scripts, is read as an integer or refused
for its length, and for nothing else:

* `isBlank_of_isDigit` — no digit is a blank, so a run of digits has nothing to
  be stripped of;
* `readInteger_of_digits` — the run has a value exactly if it has at most
  `digitLimit` digits.
-/
import AnalyzerBridge.Number.Integer
import Mathlib.Data.List.TakeWhile

namespace AnalyzerBridge

namespace Text

/-- A digit is one of ten consecutive characters after the zero of its script. -/
theorem exists_zero_of_isDigit {c : Char} (h : isDigit c = true) :
    ∃ z ∈ digitZeros, z ≤ c.toNat ∧ c.toNat < z + 10 := by
  rw [isDigit, digitValue?, Option.isSome_iff_exists] at h
  obtain ⟨v, h⟩ := h
  split at h
  · split at h
    next hrange =>
      simp only [Bool.and_eq_true, decide_eq_true_eq] at hrange
      exact ⟨48, by decide, by omega, by omega⟩
    next => exact absurd h (by simp)
  · obtain ⟨z, hz, _⟩ := Option.map_eq_some_iff.mp h
    have hrange := List.find?_some hz
    simp only [Bool.and_eq_true, decide_eq_true_eq] at hrange
    exact ⟨z, List.mem_of_find?_eq_some hz, hrange⟩

theorem isBlank_ofNat_digit :
    ∀ z ∈ digitZeros, ∀ d < 10, isBlank (Char.ofNat (z + d)) = false := by
  decide +kernel

theorem isBlank_of_isDigit {c : Char} (h : isDigit c = true) : isBlank c = false := by
  obtain ⟨z, hz, hle, hlt⟩ := exists_zero_of_isDigit h
  -- the digits of all scripts are few enough to be looked at one by one
  have hc := isBlank_ofNat_digit z hz (c.toNat - z) (by omega)
  rwa [Nat.add_sub_cancel' hle, Char.ofNat_toNat] at hc

theorem ne_of_isDigit {c d : Char} (h : isDigit c = true) (hd : isDigit d = false) : c ≠ d := by
  rintro rfl
  rw [h] at hd
  exact absurd hd (by simp)

theorem trimBoth_eq_self {p : Char → Bool} {text : List Char} (h : ∀ c ∈ text, p c = false) :
    trimBoth p text = text := by
  have hdrop : ∀ l : List Char, (∀ c ∈ l, p c = false) → l.dropWhile p = l := fun l hl =>
    List.dropWhile_eq_self_iff.mpr fun hlen => by simp [hl _ (List.getElem_mem hlen)]
  rw [trimBoth, hdrop text h, hdrop text.reverse (fun c hc => h c (List.mem_reverse.mp hc)),
    List.reverse_reverse]

end Text

namespace Number

variable {digits : List Char}

/-- The values of the digits of a run. -/
abbrev values (digits : List Char) : List Nat :=
  digits.filterMap Text.digitValue?

theorem length_values (h : ∀ c ∈ digits, Text.isDigit c = true) :
    (values digits).length = digits.length :=
  List.filterMap_length_eq_length.mpr h

theorem underscoresSeparate_of_digits (h : ∀ c ∈ digits, Text.isDigit c = true) :
    underscoresSeparate digits = true := by
  have hne : ∀ c ∈ digits, c ≠ '_' := fun c hc => Text.ne_of_isDigit (h c hc) (by decide)
  rw [underscoresSeparate, Bool.and_eq_true, Bool.and_eq_true]
  refine ⟨⟨?_, ?_⟩, ?_⟩
  · rw [bne_iff_ne]
    intro hhead
    exact hne '_' (List.mem_of_head? hhead) rfl
  · rw [bne_iff_ne]
    intro hlast
    exact hne '_' (List.mem_of_getLast? hlast) rfl
  · rw [List.all_eq_true]
    rintro ⟨a, b⟩ hab
    have ha := hne a (List.of_mem_zip hab).1
    simp [ha]

theorem readDigits_of_digits (hne : digits ≠ []) (h : ∀ c ∈ digits, Text.isDigit c = true) :
    readDigits digits =
      if digitLimit < digits.length then .error (.tooLong digits.length)
      else .ok (Text.ofDigits 10 (values digits)) := by
  have hrun : ∀ c ∈ digits, (Text.isDigit c || c == '_') = true := fun c hc => by simp [h c hc]
  have htake : digits.takeWhile (fun c => Text.isDigit c || c == '_') = digits :=
    List.takeWhile_eq_self_iff.mpr hrun
  have hdrop : digits.dropWhile (fun c => Text.isDigit c || c == '_') = [] :=
    List.dropWhile_eq_nil_iff.mpr hrun
  have hlength := length_values h
  have hsome : (values digits).isEmpty = false := by
    rw [List.isEmpty_eq_false_iff, ← List.length_pos_iff, hlength]
    exact List.length_pos_iff.mpr hne
  simp only [readDigits, htake, hdrop, hsome, underscoresSeparate_of_digits h, hlength,
    Bool.not_true, Bool.or_self, Bool.false_eq_true, if_false, List.isEmpty_nil, if_true]

/-- A run of digits has a value exactly if it is not too long. -/
theorem readInteger_of_digits (hne : digits ≠ []) (h : ∀ c ∈ digits, Text.isDigit c = true) :
    readInteger digits =
      if digitLimit < digits.length then .error (.tooLong digits.length)
      else .ok (Text.ofDigits 10 (values digits)) := by
  have htrim : Text.trimBoth isNumberBlank digits = digits :=
    Text.trimBoth_eq_self fun c hc => by simp [isNumberBlank, Text.isBlank_of_isDigit (h c hc)]
  -- a sign is no digit, so the run is read without one
  have hread : readInteger digits = (readDigits digits).map fun n => (n : Int) := by
    rw [readInteger, htrim]
    split
    next rest => exact absurd rfl (Text.ne_of_isDigit (h '-' (by simp)) (by decide))
    next rest => exact absurd rfl (Text.ne_of_isDigit (h '+' (by simp)) (by decide))
    next => rfl
  rw [hread, readDigits_of_digits hne h]
  split <;> rfl

end Number

end AnalyzerBridge
