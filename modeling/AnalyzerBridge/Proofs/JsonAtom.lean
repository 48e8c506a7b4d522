/-
Strings and numbers of JSON, written and read back.

* `glyphText_cases` — the three ways in which a character stands in a string;
* `readString_stringText` — a text comes back from its string, the two units of a pair
  joined again;
* `readMagnitude_toDigits`, `readAtom_toString` — an integer comes back from its digits,
  if there are no more of them than are read.

Design notes: a string ends at its quote, whatever follows; a number reads on, so what
follows it must not continue it (`EndsNumber`).
-/
import AnalyzerBridge.Json.Reader
import AnalyzerBridge.Json.Writer
import AnalyzerBridge.Proofs.Numeral
import Mathlib.Data.List.TakeWhile
import Mathlib.Tactic.SplitIfs

namespace AnalyzerBridge.Json

variable {limit : Nat} {rest : List Char}

/-! ### Strings -/

theorem unitOf?_hexPadded {unit : Nat} (h : unit < 65536) :
    ∃ a b c d, (Text.hexPadded 4 unit).toList = [a, b, c, d] ∧ unitOf? [a, b, c, d] = some unit := by
  obtain ⟨a, b, c, d, htext, hvalues⟩ := Text.hexPadded_four h
  refine ⟨a, b, c, d, htext, ?_⟩
  rw [unitOf?, hvalues, Option.map_some, Text.ofDigits]
  simp only [List.foldl_cons, List.foldl_nil]
  congr 1
  omega

theorem readString_unitEscape {unit : Nat} (h : unit < 65536) (reversed : LooseText)
    (rest : List Char) :
    readString reversed (unitEscape unit ++ rest) =
      readString (LooseText.pushUnit reversed unit) rest := by
  obtain ⟨a, b, c, d, htext, hunit⟩ := unitOf?_hexPadded h
  rw [unitEscape, htext]
  show readString reversed ('\\' :: 'u' :: a :: b :: c :: d :: rest) = _
  rw [readString, hunit]

theorem readString_simpleEscape {e c : Char} (h : simpleEscape? e = some c) (reversed : LooseText)
    (rest : List Char) :
    readString reversed ('\\' :: e :: rest) = readString (.char c :: reversed) rest := by
  have hu : e ≠ 'u' := by
    rintro rfl
    have hnone : simpleEscape? 'u' = none := rfl
    exact absurd (hnone.symm.trans h) (by simp)
  rw [readString, h]
  exact fun _ _ _ _ _ he _ => hu he

theorem readString_plain {c : Char} (hquote : c ≠ '"') (hslash : c ≠ '\\') (hc : 32 ≤ c.toNat)
    (reversed : LooseText) (rest : List Char) :
    readString reversed (c :: rest) = readString (.char c :: reversed) rest := by
  rw [readString, if_neg (by simp [hslash]; omega)]
  · exact hquote
  · exact fun _ _ _ _ _ h _ => hslash h
  · exact fun _ _ h _ => hslash h

theorem pushUnit_char (c : Char) (h : c.toNat < 0x10000) (reversed : LooseText) :
    LooseText.pushUnit reversed c.toNat = .char c :: reversed := by
  have hvalid : c.toNat < 0xD800 ∨ 0xDFFF < c.toNat ∧ c.toNat < 0x110000 := c.valid
  have hlow : LooseText.isLow c.toNat = false := by
    simp only [LooseText.isLow, Bool.and_eq_false_iff, decide_eq_false_iff_not]
    omega
  have hhigh : LooseText.isHigh c.toNat = false := by
    simp only [LooseText.isHigh, Bool.and_eq_false_iff, decide_eq_false_iff_not]
    omega
  simp only [LooseText.pushUnit.eq_def, hlow, hhigh, Bool.false_eq_true, if_false, Char.ofNat_toNat]

/-- The leading unit of a pair waits in front, and the trailing one completes it. -/
theorem pushUnit_pair (c : Char) (h : 0x10000 ≤ c.toNat) (reversed : LooseText) :
    LooseText.pushUnit (LooseText.pushUnit reversed (0xD800 + (c.toNat - 0x10000) / 0x400))
        (0xDC00 + (c.toNat - 0x10000) % 0x400) =
      .char c :: reversed := by
  have hvalid : c.toNat < 0xD800 ∨ 0xDFFF < c.toNat ∧ c.toNat < 0x110000 := c.valid
  have hjoin : LooseText.joinPair (0xD800 + (c.toNat - 0x10000) / 0x400)
      (0xDC00 + (c.toNat - 0x10000) % 0x400) = c := by
    have hsum : 0x10000 + (0xD800 + (c.toNat - 0x10000) / 0x400 - 0xD800) * 0x400 +
        (0xDC00 + (c.toNat - 0x10000) % 0x400 - 0xDC00) = c.toNat := by
      omega
    rw [LooseText.joinPair, hsum, Char.ofNat_toNat]
  generalize hlead : 0xD800 + (c.toNat - 0x10000) / 0x400 = lead at hjoin ⊢
  generalize htrail : 0xDC00 + (c.toNat - 0x10000) % 0x400 = trail at hjoin ⊢
  have hlow : LooseText.isLow lead = false := by
    simp only [LooseText.isLow, Bool.and_eq_false_iff, decide_eq_false_iff_not]
    omega
  have hhigh : LooseText.isHigh lead = true := by
    simp only [LooseText.isHigh, Bool.and_eq_true, decide_eq_true_eq]
    omega
  have htrails : LooseText.isLow trail = true := by
    simp only [LooseText.isLow, Bool.and_eq_true, decide_eq_true_eq]
    omega
  have hwait : LooseText.pushUnit reversed lead = .lone lead :: reversed := by
    simp only [LooseText.pushUnit.eq_def, hlow, hhigh, Bool.false_eq_true, if_false, if_true]
  rw [hwait]
  simp only [LooseText.pushUnit, htrails, hhigh, if_true, hjoin]

/-- A character comes back from its UTF-16 code units. -/
theorem readString_units (c : Char) (reversed : LooseText) (rest : List Char) :
    readString reversed ((unitsOf (.char c)).flatMap unitEscape ++ rest) =
      readString (.char c :: reversed) rest := by
  have hbound : c.toNat < 0x110000 := by
    have hvalid : c.toNat < 0xD800 ∨ 0xDFFF < c.toNat ∧ c.toNat < 0x110000 := c.valid
    omega
  rw [unitsOf]
  by_cases hsmall : c.toNat < 0x10000
  · rw [if_pos hsmall, List.flatMap_singleton, readString_unitEscape hsmall, pushUnit_char c hsmall]
  · rw [if_neg hsmall, List.flatMap_cons, List.flatMap_singleton, List.append_assoc,
      readString_unitEscape (by omega), readString_unitEscape (by omega),
      pushUnit_pair c (Nat.not_lt.mp hsmall)]

/-- A character in a string is an escape of one letter, or itself, or its code units. -/
theorem glyphText_cases (c : Char) :
    (∃ e, simpleEscape? e = some c ∧ glyphText (.char c) = ['\\', e]) ∨
    (c ≠ '"' ∧ c ≠ '\\' ∧ 32 ≤ c.toNat ∧ glyphText (.char c) = [c]) ∨
    glyphText (.char c) = (unitsOf (.char c)).flatMap unitEscape := by
  rw [glyphText]
  split_ifs with hself hn hr ht hb hf hprintable
  · have hescape : simpleEscape? c = some c := by
      rcases by simpa using hself with rfl | rfl <;> rfl
    exact .inl ⟨c, hescape, rfl⟩
  · exact .inl ⟨'n', congrArg some (eq_of_beq hn).symm, rfl⟩
  · exact .inl ⟨'r', congrArg some (eq_of_beq hr).symm, rfl⟩
  · exact .inl ⟨'t', congrArg some (eq_of_beq ht).symm, rfl⟩
  · have hc : Char.ofNat 8 = c := by rw [← eq_of_beq hb, Char.ofNat_toNat]
    exact .inl ⟨'b', congrArg some hc, rfl⟩
  · have hc : Char.ofNat 12 = c := by rw [← eq_of_beq hf, Char.ofNat_toNat]
    exact .inl ⟨'f', congrArg some hc, rfl⟩
  · obtain ⟨hquote, hslash⟩ : c ≠ '"' ∧ c ≠ '\\' := by simpa using hself
    have hlow : 32 ≤ c.toNat := by
      simp only [Bool.and_eq_true, decide_eq_true_eq] at hprintable
      exact hprintable.1
    exact .inr (.inl ⟨hquote, hslash, hlow, rfl⟩)
  · exact .inr (.inr rfl)

theorem readString_glyphText (c : Char) (reversed : LooseText) (rest : List Char) :
    readString reversed (glyphText (.char c) ++ rest) = readString (.char c :: reversed) rest := by
  rcases glyphText_cases c with ⟨e, he, htext⟩ | ⟨hquote, hslash, hlow, htext⟩ | htext
  · rw [htext]
    exact readString_simpleEscape he reversed rest
  · rw [htext]
    exact readString_plain hquote hslash hlow reversed rest
  · rw [htext, readString_units]

theorem readString_glyphs (chars : List Char) (reversed : LooseText) (rest : List Char) :
    readString reversed ((chars.map Glyph.char).flatMap glyphText ++ '"' :: rest) =
      .ok (reversed.reverse ++ chars.map .char, rest) := by
  induction chars generalizing reversed with
  | nil =>
    show readString reversed ('"' :: rest) = _
    rw [readString, List.map_nil, List.append_nil]
  | cons c chars ih =>
    rw [List.map_cons, List.flatMap_cons, List.append_assoc, readString_glyphText, ih,
      List.reverse_cons, List.append_assoc, List.singleton_append]

theorem toString?_ofString (s : String) : (LooseText.ofString s).toString? = some s := by
  have hchars : LooseText.toChars? (LooseText.ofString s) = some s.toList := by
    rw [LooseText.ofString, LooseText.toChars?, List.mapM_map]
    exact List.mapM_pure.trans (congrArg some (List.map_id s.toList))
  rw [LooseText.toString?, hchars, Option.map_some, String.ofList_toList]

theorem ofLoose_ofString (s : String) : Value.ofLoose (LooseText.ofString s) = .text s := by
  rw [Value.ofLoose, toString?_ofString]

theorem stringText_toList (t : LooseText) :
    (stringText t).toList = '"' :: (t.flatMap glyphText ++ ['"']) := by
  rw [stringText, String.toList_ofList]
  rfl

/-- The string of a text is read as the text. -/
theorem readString_stringText (s : String) :
    ∃ body, (stringText (LooseText.ofString s)).toList = '"' :: body ∧
      ∀ rest, readString [] (body ++ rest) = .ok (LooseText.ofString s, rest) := by
  refine ⟨_, stringText_toList _, fun rest => ?_⟩
  rw [List.append_assoc]
  exact readString_glyphs s.toList [] rest

/-! ### Numbers and words -/

/-- A text that continues no number. -/
def EndsNumber (rest : List Char) : Prop :=
  ∀ c ∈ rest.head?, Text.isAsciiDigit c = false ∧ c ≠ '.' ∧ c ≠ 'e' ∧ c ≠ 'E'

theorem endsNumber_cons {c : Char} (h : c = ',' ∨ c = '\n') (rest : List Char) :
    EndsNumber (c :: rest) := by
  intro d hd
  obtain rfl : c = d := Option.some_inj.mp hd
  rcases h with rfl | rfl <;> decide

theorem EndsNumber.digits (h : EndsNumber rest) {digits : List Char}
    (hdigits : ∀ c ∈ digits, Text.isAsciiDigit c = true) :
    (digits ++ rest).takeWhile Text.isAsciiDigit = digits ∧
      (digits ++ rest).dropWhile Text.isAsciiDigit = rest := by
  rw [List.takeWhile_append_of_pos hdigits, List.dropWhile_append_of_pos hdigits]
  cases rest with
  | nil => exact ⟨List.append_nil _, rfl⟩
  | cons c rest =>
    have hc : ¬Text.isAsciiDigit c = true := by simp [(h c rfl).1]
    rw [List.takeWhile_cons_of_neg hc, List.dropWhile_cons_of_neg hc]
    exact ⟨List.append_nil _, rfl⟩

theorem EndsNumber.fraction (h : EndsNumber rest) : readFraction? rest = none := by
  rw [readFraction?.eq_def]
  split
  next c left => exact absurd rfl (h '.' rfl).2.1
  next => rfl

theorem EndsNumber.exponent (h : EndsNumber rest) : readExponent? rest = none := by
  cases rest with
  | nil => rfl
  | cons c rest =>
    obtain ⟨_, _, he, hE⟩ := h c rfl
    have hmark : (c == 'e' || c == 'E') = false := by simp [he, hE]
    simp only [readExponent?, hmark, Bool.false_eq_true, if_false]

theorem integerDigits_toDigits (n : Nat) (h : EndsNumber rest) :
    integerDigits (Nat.toDigits 10 n ++ rest) = (Nat.toDigits 10 n, rest) := by
  by_cases hn : n = 0
  · subst hn
    rfl
  · obtain ⟨htake, hdrop⟩ := h.digits fun c hc => Text.isAsciiDigit_of_mem_toDigits (n := n) hc
    obtain ⟨c, digits, hdigits, hc⟩ := Text.toDigits_head hn
    rw [hdigits] at htake hdrop ⊢
    rw [List.cons_append] at htake hdrop ⊢
    rw [integerDigits, htake, hdrop]
    exact fun _ hzero => absurd (List.cons.inj hzero).1 hc

/-- The digits of a number are read as the number. -/
theorem readMagnitude_toDigits {n : Nat} (hn : (Nat.toDigits 10 n).length ≤ limit) (negative : Bool)
    (h : EndsNumber rest) :
    readMagnitude (some limit) negative (Nat.toDigits 10 n ++ rest) =
      .ok (.int (if negative then -(n : Int) else n), rest) := by
  have hne : (Nat.toDigits 10 n).isEmpty = false := by
    simp [List.isEmpty_eq_false_iff, Nat.toDigits_ne_nil]
  have hshort : ¬((some limit).any fun most => most < (Nat.toDigits 10 n).length) = true := by
    simpa using hn
  simp only [readMagnitude, integerDigits_toDigits n h, hne, h.fraction, h.exponent,
    Bool.false_eq_true, if_false, if_neg hshort, Text.ofDigits_toDigits]

theorem afterWord?_of_ne {w c : Char} (h : w ≠ c) (word text : List Char) :
    afterWord? (w :: word) (c :: text) = none := by
  rw [afterWord?, if_neg (by simpa using h)]

theorem ne_of_isAsciiDigit {c d : Char} (hc : Text.isAsciiDigit c = true)
    (hd : Text.isAsciiDigit d = false) : d ≠ c := by
  rintro rfl
  exact absurd (hd.symm.trans hc) (by simp)

/-- A text is free of the words that stand for values. -/
def NoWord (text : List Char) : Prop :=
  ∀ word ∈ ["null", "true", "false", "NaN", "Infinity", "-Infinity"],
    afterWord? word.toList text = none

/-- A text that starts with none of the words is a number. -/
theorem readAtom_of_noWord {text : List Char} (h : NoWord text) :
    readAtom (some limit) text =
      if text.head? = some '-' then readMagnitude (some limit) true text.tail
      else readMagnitude (some limit) false text := by
  simp only [NoWord, List.forall_mem_cons] at h
  obtain ⟨hnull, htrue, hfalse, hnan, hinfinity, hminus, _⟩ := h
  simp only [readAtom, List.findSome?_cons, List.findSome?_nil, hnull, htrue, hfalse, hnan, hinfinity,
    hminus, Option.map_none]
  split
  next digits => rw [if_pos List.head?_cons, List.tail_cons]
  next hne =>
    have hhead : text.head? ≠ some '-' := by
      intro hhead
      obtain ⟨digits, hdigits⟩ := List.head?_eq_some_iff.mp hhead
      exact hne digits hdigits
    rw [if_neg hhead]

theorem noWord_digit {c : Char} (hc : Text.isAsciiDigit c = true) (text : List Char) :
    NoWord (c :: text) ∧ NoWord ('-' :: c :: text) := by
  have hne : ∀ w, Text.isAsciiDigit w = false → ∀ word, afterWord? (w :: word) (c :: text) = none :=
    fun w hw word => afterWord?_of_ne (ne_of_isAsciiDigit hc hw) word text
  simp only [NoWord, List.forall_mem_cons]
  refine ⟨⟨hne 'n' rfl _, hne 't' rfl _, hne 'f' rfl _, hne 'N' rfl _, hne 'I' rfl _, hne '-' rfl _,
    List.forall_mem_nil _⟩, ⟨rfl, rfl, rfl, rfl, rfl, ?_, List.forall_mem_nil _⟩⟩
  -- only the last word starts with a minus sign, and no digit follows it there
  exact hne 'I' rfl _

theorem toDigits_cons (n : Nat) :
    ∃ c digits, Nat.toDigits 10 n = c :: digits ∧ Text.isAsciiDigit c = true := by
  obtain ⟨c, digits, hdigits⟩ := List.exists_cons_of_ne_nil (Nat.toDigits_ne_nil (n := n) (b := 10))
  exact ⟨c, digits, hdigits, Text.isAsciiDigit_of_mem_toDigits (n := n) (by rw [hdigits]; simp)⟩

theorem toString_ofNat_toList (n : Nat) : (toString (Int.ofNat n)).toList = Nat.toDigits 10 n := by
  show (toString n).toList = _
  rw [Nat.toString_eq_ofList_toDigits, String.toList_ofList]

theorem toString_negSucc_toList (n : Nat) :
    (toString (Int.negSucc n)).toList = '-' :: Nat.toDigits 10 (n + 1) := by
  show ("-" ++ toString (n + 1)).toList = _
  simp only [Nat.toString_eq_ofList_toDigits, String.toList_append, String.toList_ofList]
  rfl

theorem toString_cons (i : Int) :
    ∃ c more, (toString i).toList = c :: more ∧ (c = '-' ∨ Text.isAsciiDigit c = true) := by
  obtain ⟨c, digits, hdigits, hc⟩ := toDigits_cons i.natAbs
  cases i with
  | ofNat n => exact ⟨c, digits, (toString_ofNat_toList n).trans hdigits, .inr hc⟩
  | negSucc n => exact ⟨'-', _, toString_negSucc_toList n, .inl rfl⟩

/-- An integer within the limit is read as itself. -/
theorem readAtom_toString {i : Int} (hi : (Nat.toDigits 10 i.natAbs).length ≤ limit)
    (h : EndsNumber rest) :
    readAtom (some limit) ((toString i).toList ++ rest) = .ok (.int i, rest) := by
  obtain ⟨c, digits, hdigits, hc⟩ := toDigits_cons i.natAbs
  obtain ⟨hpositive, hnegative⟩ := noWord_digit hc (digits ++ rest)
  cases i with
  | ofNat n =>
    have hread := readMagnitude_toDigits hi false h
    rw [hdigits] at hread
    have hn : Nat.toDigits 10 n = c :: digits := hdigits
    have hminus : (c :: (digits ++ rest)).head? ≠ some '-' := fun h =>
      ne_of_isAsciiDigit hc rfl (Option.some_inj.mp h).symm
    rw [toString_ofNat_toList, hn, List.cons_append, readAtom_of_noWord hpositive, if_neg hminus]
    exact hread
  | negSucc n =>
    have hread := readMagnitude_toDigits hi true h
    rw [hdigits] at hread
    have hn : Nat.toDigits 10 (n + 1) = c :: digits := hdigits
    rw [toString_negSucc_toList, hn, List.cons_append, List.cons_append,
      readAtom_of_noWord hnegative, if_pos List.head?_cons]
    exact hread

/-- Only quotes, brackets and braces start a value that is no atom. -/
theorem readValue_atom {fuel depth : Nat} {c : Char} (hquote : c ≠ '"') (hbracket : c ≠ '[')
    (hbrace : c.toNat ≠ 0x7B) (text : List Char) :
    readValue (some limit) (fuel + 1) depth (c :: text) = readAtom (some limit) (c :: text) := by
  have hlist : (c == '[') = false := beq_eq_false_iff_ne.mpr hbracket
  have htable : (c.toNat == 0x7B) = false := beq_eq_false_iff_ne.mpr hbrace
  simp only [readValue.eq_def, hlist, htable, Bool.false_eq_true, if_false]

end AnalyzerBridge.Json
