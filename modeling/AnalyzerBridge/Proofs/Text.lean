/-
Plain texts.

A text of ASCII characters is read back from its bytes, and a text without line
breaks is one line:

* `decodeLossy_ascii` — the characters of ASCII bytes;
* `bareLines_of_unbroken` — the lines of a text that nothing breaks;
* `isBlank_of_isLineBreak` — a text without blanks is such a text.
-/
import AnalyzerBridge.Text.Blank
import AnalyzerBridge.Text.Line
import AnalyzerBridge.Text.Utf8

namespace AnalyzerBridge.Text

namespace Utf8

/-- An ASCII byte is a character of its own, whatever follows it. -/
theorem piece_ascii {b : UInt8} (h : b < 0x80) (rest : List UInt8) :
    piece b rest = (.ok (Char.ofNat b.toNat), 1) := by
  have hlead : lead? b = some (0, 0x80, 0xBF, b.toNat) := by rw [lead?, if_pos h]
  rw [piece, hlead]
  rfl

theorem decodeLossyFrom_ascii (bytes : List UInt8) :
    ∀ reversed, (∀ b ∈ bytes, b < 0x80) →
      decodeLossyFrom reversed bytes =
        reversed.reverse ++ bytes.map fun b => Char.ofNat b.toNat := by
  induction bytes with
  | nil =>
    intro reversed _
    rw [decodeLossyFrom]
    simp
  | cons b rest ih =>
    intro reversed h
    have hb : b < 0x80 := h b (by simp)
    have hrest : ∀ b ∈ rest, b < 0x80 := fun b hb => h b (by simp [hb])
    rw [decodeLossyFrom]
    simp only [piece_ascii hb, Nat.sub_self, List.drop_zero]
    rw [ih _ hrest]
    simp

/-- ASCII bytes are read one character each. -/
theorem decodeLossy_ascii {bytes : List UInt8} (h : ∀ b ∈ bytes, b < 0x80) :
    decodeLossy bytes = bytes.map fun b => Char.ofNat b.toNat :=
  decodeLossyFrom_ascii bytes [] h

end Utf8

/-- What ends a line is blank. -/
theorem isBlank_of_isLineBreak {c : Char} (h : isLineBreak c = true) : isBlank c = true := by
  simp only [isLineBreak, isBlank, Bool.or_eq_true, Bool.and_eq_true, decide_eq_true_eq,
    beq_iff_eq] at h ⊢
  omega

theorem lines_of_unbroken {text : List Char} (hne : text ≠ [])
    (h : ∀ c ∈ text, isLineBreak c = false) : lines text = [text] := by
  induction text with
  | nil => exact absurd rfl hne
  | cons c rest ih =>
    have hc : isLineBreak c = false := h c (by simp)
    rw [lines, List.foldr_cons, ← lines]
    cases rest with
    | nil => rfl
    | cons d rest =>
      rw [ih (by simp) fun e he => h e (by simp [he])]
      simp [consLine, hc]

/-- A text that nothing breaks is one line. -/
theorem bareLines_of_unbroken {text : List Char} (hne : text ≠ [])
    (h : ∀ c ∈ text, isLineBreak c = false) : bareLines text = [text] := by
  rw [bareLines, lines_of_unbroken hne h, List.map_singleton]
  congr 1
  exact List.filter_eq_self.mpr fun c hc => by simp [h c hc]

/-- A text that is not blank at its ends is what remains of it with blanks around it. -/
theorem strip_between {first last : Char} {before after : List Char} (hfirst : isBlank first = false)
    (hlast : isBlank last = false) (hbefore : ∀ c ∈ before, isBlank c = true)
    (hafter : ∀ c ∈ after, isBlank c = true) (inner : List Char) :
    strip (before ++ (first :: (inner ++ [last]) ++ after)) = first :: (inner ++ [last]) := by
  have hfront : (before ++ (first :: (inner ++ [last]) ++ after)).dropWhile isBlank =
      first :: (inner ++ [last]) ++ after := by
    rw [List.dropWhile_append_of_pos hbefore]
    exact List.dropWhile_cons_of_neg (by simp [hfirst])
  have hreverse : (first :: (inner ++ [last]) ++ after).reverse =
      after.reverse ++ last :: (inner.reverse ++ [first]) := by
    simp
  have hback : (after.reverse ++ last :: (inner.reverse ++ [first])).dropWhile isBlank =
      last :: (inner.reverse ++ [first]) := by
    rw [List.dropWhile_append_of_pos fun c hc => hafter c (List.mem_reverse.mp hc)]
    exact List.dropWhile_cons_of_neg (by simp [hlast])
  rw [strip, trimBoth, hfront, hreverse, hback]
  simp

end AnalyzerBridge.Text
