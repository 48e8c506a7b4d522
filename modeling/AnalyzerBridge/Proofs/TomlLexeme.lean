/-
What the lexemes of TOML take from a text.

* `Takes` — blanks, strings, keys, dates and times are taken off the front of the text,
  or the text is malformed;
* `digitRun_of_run`, `run_digitRun` — digits with underscores between them, read and
  written;
* `readAtom_long_iff` — the one other fault: an integer is refused for its length exactly
  if more digits than the limit stand there, underscores apart, and nothing makes them a
  fraction or a power.

Design notes: a number shares its fraction and its exponent with JSON, so what goes on
with a number is said in the words of `Json.Continues`.
-/
import AnalyzerBridge.Proofs.Json
import AnalyzerBridge.Toml.Document

namespace AnalyzerBridge.Toml

open Json (StartsDigit StartsSigned StartsFraction StartsPower startsSigned_sign startsSigned_plain
  startsPower_cons)

variable {α : Type} {digits : Nat} {text rest : List Char}

/-- A lexeme is taken off the front of the text, or the text is malformed. -/
def Takes (text : List Char) : Read α → Prop
  | .ok (_, rest) => rest <:+ text
  | .error fault => fault = .malformed

theorem Takes.suffix {r : Read α} {x : α} (h : Takes text r) (hr : r = .ok (x, rest)) : rest <:+ text := by
  subst hr
  exact h

theorem Takes.malformed {r : Read α} {fault : Fault} (h : Takes text r) (hr : r = .error fault) :
    fault = .malformed := by
  subst hr
  exact h

theorem Takes.of_suffix {r : Read α} (h : Takes rest r) (hrest : rest <:+ text) : Takes text r := by
  rcases r with fault | ⟨x, left⟩
  · exact h
  · exact List.IsSuffix.trans h hrest

theorem Takes.map {β : Type} {r : Read α} (h : Takes text r) (f : α → β) :
    Takes text (r.map fun p => (f p.1, p.2)) := by
  rcases r with fault | ⟨x, left⟩
  · exact h
  · exact h

/-! ### Blanks and comments -/

/-- A reader without a value leaves the rest of the text, or the text is malformed. -/
def Skips (text : List Char) : Except Fault (List Char) → Prop
  | .ok rest => rest <:+ text
  | .error fault => fault = .malformed

theorem Skips.suffix {r : Except Fault (List Char)} (h : Skips text r) (hr : r = .ok rest) :
    rest <:+ text := by
  subst hr
  exact h

theorem Skips.malformed {r : Except Fault (List Char)} {fault : Fault} (h : Skips text r)
    (hr : r = .error fault) : fault = .malformed := by
  subst hr
  exact h

theorem skipBlanks_suffix (text : List Char) : skipBlanks text <:+ text :=
  List.dropWhile_suffix _

theorem skipComment_skips (text : List Char) : Skips text (skipComment text) := by
  rw [skipComment.eq_def]
  split
  next rest =>
    split
    · rfl
    · exact (List.dropWhile_suffix _).trans (List.suffix_cons _ rest)
  next => exact List.suffix_rfl

theorem Skips.of_suffix {r : Except Fault (List Char)} (h : Skips rest r) (hrest : rest <:+ text) :
    Skips text r := by
  rcases r with fault | left
  · exact h
  · exact List.IsSuffix.trans h hrest

theorem skipSpace_skips (inComment : Bool) (text : List Char) :
    Skips text (skipSpace inComment text) := by
  fun_induction skipSpace inComment text with
  | case1 => exact List.suffix_rfl
  | case2 c rest _ ih => exact ih.of_suffix (List.suffix_cons c rest)
  | case3 => rfl
  | case4 c rest _ _ ih => exact ih.of_suffix (List.suffix_cons c rest)
  | case5 c rest _ ih => exact ih.of_suffix (List.suffix_cons c rest)
  | case6 c rest _ _ ih => exact ih.of_suffix (List.suffix_cons c rest)
  | case7 => exact List.suffix_rfl

/-! ### Strings and keys -/

theorem readBasic_takes (reversed text : List Char) :
    Takes text (readBasic reversed text) := by
  fun_induction readBasic reversed text with
  | case1 => rfl
  | case2 reversed rest => exact List.suffix_cons _ rest
  | case3 reversed rest c width _ ih =>
    exact ih.of_suffix ((List.drop_suffix _ _).trans (List.suffix_cons _ rest))
  | case4 => rfl
  | case5 => rfl
  | case6 reversed c rest _ _ _ ih => exact ih.of_suffix (List.suffix_cons c rest)

theorem closeLong_suffix (quote : Char) (reversed text : List Char) :
    (closeLong quote reversed text).2 <:+ text := by
  fun_cases closeLong quote reversed text with
  | case1 a b rest => exact ⟨[a, b], rfl⟩
  | case2 a b rest => exact List.suffix_cons a (b :: rest)
  | case3 => exact List.suffix_rfl
  | case4 a => exact List.suffix_cons a []
  | case5 => exact List.suffix_rfl
  | case6 => exact List.suffix_rfl

theorem readLongBasic_takes (reversed text : List Char) :
    Takes text (readLongBasic reversed text) := by
  fun_induction readLongBasic reversed text with
  | case1 => rfl
  | case2 reversed rest => exact (closeLong_suffix _ _ rest).trans ⟨['"', '"', '"'], rfl⟩
  | case3 reversed rest width _ ih =>
    exact ih.of_suffix ((List.drop_suffix _ _).trans (List.suffix_cons _ rest))
  | case4 reversed rest _ c width _ ih =>
    exact ih.of_suffix ((List.drop_suffix _ _).trans (List.suffix_cons _ rest))
  | case5 => rfl
  | case6 => rfl
  | case7 reversed c rest _ _ _ ih => exact ih.of_suffix (List.suffix_cons c rest)

theorem readLiteral_takes (reversed text : List Char) :
    Takes text (readLiteral reversed text) := by
  fun_induction readLiteral reversed text with
  | case1 => rfl
  | case2 reversed rest => exact List.suffix_cons _ rest
  | case3 => rfl
  | case4 reversed c rest _ _ ih => exact ih.of_suffix (List.suffix_cons c rest)

theorem readLongLiteral_takes (reversed text : List Char) :
    Takes text (readLongLiteral reversed text) := by
  fun_induction readLongLiteral reversed text with
  | case1 => rfl
  | case2 reversed rest =>
    exact (closeLong_suffix _ _ rest).trans ⟨['\'', '\'', '\''], rfl⟩
  | case3 => rfl
  | case4 reversed c rest _ _ ih => exact ih.of_suffix (List.suffix_cons c rest)

theorem skipFirstNewline_suffix (text : List Char) : skipFirstNewline text <:+ text := by
  rw [skipFirstNewline.eq_def]
  split
  · exact List.suffix_cons _ _
  · exact List.suffix_rfl

theorem readString?_takes {r : Read (List Char)} (h : readString? text = some r) :
    Takes text r := by
  rw [readString?.eq_def] at h
  split at h
  next rest =>
    obtain rfl := Option.some_inj.mp h
    exact (readLongBasic_takes [] _).of_suffix
      ((skipFirstNewline_suffix rest).trans ⟨['"', '"', '"'], rfl⟩)
  next rest _ =>
    obtain rfl := Option.some_inj.mp h
    exact (readBasic_takes [] rest).of_suffix (List.suffix_cons _ rest)
  next rest =>
    obtain rfl := Option.some_inj.mp h
    exact (readLongLiteral_takes [] _).of_suffix
      ((skipFirstNewline_suffix rest).trans ⟨['\'', '\'', '\''], rfl⟩)
  next rest _ =>
    obtain rfl := Option.some_inj.mp h
    exact (readLiteral_takes [] rest).of_suffix (List.suffix_cons _ rest)
  next => exact absurd h (by simp)

theorem readKeyPart_takes (text : List Char) : Takes text (readKeyPart text) := by
  rw [readKeyPart.eq_def]
  split
  next rest =>
    exact ((readLiteral_takes [] rest).of_suffix (List.suffix_cons _ rest)).map String.ofList
  next rest =>
    exact ((readBasic_takes [] rest).of_suffix (List.suffix_cons _ rest)).map String.ofList
  next =>
    simp only
    split
    · rfl
    · exact List.dropWhile_suffix _

/-- The blanks after something, and a character after them, are left behind. -/
theorem suffix_of_skipBlanks {c : Char} {left : List Char} (h : skipBlanks rest = c :: left)
    (hrest : rest <:+ text) : left <:+ text := by
  have hskip := skipBlanks_suffix rest
  rw [h] at hskip
  exact ((List.suffix_cons c left).trans hskip).trans hrest

theorem readKeyParts_takes (fuel : Nat) (reversed : List String) (text : List Char) :
    Takes text (readKeyParts fuel reversed text) := by
  induction fuel generalizing reversed text with
  | zero => rfl
  | succ fuel ih =>
    have hpart : Takes text (readKeyPart text) := readKeyPart_takes text
    rw [readKeyParts]
    split
    next fault hfault =>
      rw [hfault] at hpart
      exact hpart
    next part left hleft =>
      rw [hleft] at hpart
      split
      next more hskip =>
        exact (ih (part :: reversed) _).of_suffix
          ((skipBlanks_suffix more).trans (suffix_of_skipBlanks hskip hpart))
      next => exact (skipBlanks_suffix left).trans hpart

theorem readKey_takes (text : List Char) : Takes text (readKey text) :=
  readKeyParts_takes _ [] text

/-! ### Numbers -/

/-- Digits with single underscores between two of them, or in front, and the digits alone. -/
inductive Run (isDigit : Char → Bool) : (run digits : List Char) → Prop
  | nil : Run isDigit [] []
  | digit {c : Char} {run digits : List Char} (hc : isDigit c = true) (h : Run isDigit run digits) :
      Run isDigit (c :: run) (c :: digits)
  | spaced {c : Char} {run digits : List Char} (hc : isDigit c = true) (h : Run isDigit run digits) :
      Run isDigit ('_' :: c :: run) (c :: digits)

/-- A run of digits could be longer: another digit follows, or an underscore and another digit. -/
def Extends (isDigit : Char → Bool) (rest : List Char) : Prop :=
  ∃ c more, isDigit c = true ∧ (rest = c :: more ∨ rest = '_' :: c :: more)

/-- A run of digits is taken off the front, as far as it goes. -/
theorem digitRun_spec {isDigit : Char → Bool} (hunder : isDigit '_' = false) (text : List Char) :
    ∃ run, text = run ++ (digitRun isDigit text).2 ∧ Run isDigit run (digitRun isDigit text).1 ∧
      ¬ Extends isDigit (digitRun isDigit text).2 := by
  fun_induction digitRun isDigit text with
  | case1 c rest hc more ih =>
    obtain ⟨run, hrun, hdigits, hend⟩ := ih
    exact ⟨'_' :: c :: run, by rw [List.cons_append, List.cons_append, ← hrun], .spaced hc hdigits, hend⟩
  | case2 c rest hc =>
    refine ⟨[], rfl, .nil, ?_⟩
    rintro ⟨d, more, hd, htext | htext⟩
    · obtain ⟨rfl, -⟩ := List.cons.inj htext
      exact absurd (hunder.symm.trans hd) (by simp)
    · obtain ⟨rfl, -⟩ := List.cons.inj (List.cons.inj htext).2
      exact hc hd
  | case3 c rest _ hc more ih =>
    obtain ⟨run, hrun, hdigits, hend⟩ := ih
    exact ⟨c :: run, by rw [List.cons_append, ← hrun], .digit hc hdigits, hend⟩
  | case4 c rest hspaced hc =>
    refine ⟨[], rfl, .nil, ?_⟩
    rintro ⟨d, more, hd, htext | htext⟩
    · obtain ⟨rfl, -⟩ := List.cons.inj htext
      exact hc hd
    · obtain ⟨rfl, rfl⟩ := List.cons.inj htext
      exact hspaced d more rfl rfl
  | case5 =>
    refine ⟨[], rfl, .nil, ?_⟩
    rintro ⟨d, more, hd, htext | htext⟩
    · exact absurd htext (by simp)
    · exact absurd htext (by simp)

theorem digitRun_of_run {isDigit : Char → Bool} (hunder : isDigit '_' = false) {run ds : List Char}
    (h : Run isDigit run ds) (hend : ¬ Extends isDigit rest) :
    digitRun isDigit (run ++ rest) = (ds, rest) := by
  induction h with
  | nil =>
    -- the reader stops where nothing extends the run
    obtain ⟨front, hfront, hrun, -⟩ := digitRun_spec hunder rest
    rw [List.nil_append]
    generalize digitRun isDigit rest = parts at hfront hrun
    obtain ⟨ds, left⟩ := parts
    cases hrun with
    | nil => rw [hfront, List.nil_append]
    | @digit c front ds hc =>
      exact absurd ⟨c, front ++ left, hc, .inl hfront⟩ hend
    | @spaced c front ds hc =>
      exact absurd ⟨c, front ++ left, hc, .inr hfront⟩ hend
  | @digit c run ds hc h ih =>
    have hne : c ≠ '_' := by
      rintro rfl
      exact absurd (hunder.symm.trans hc) (by simp)
    rw [List.cons_append, digitRun.eq_2, if_pos hc, ih]
    exact fun _ _ heq _ => hne heq
  | @spaced c run ds hc h ih =>
    rw [List.cons_append, List.cons_append, digitRun, if_pos hc, ih]

theorem Run.isDigit {isDigit : Char → Bool} {run ds : List Char} (h : Run isDigit run ds) :
    ∀ c ∈ run, isDigit c = true ∨ c = '_' := by
  induction h with
  | nil => simp
  | digit hc _ ih => simpa [hc] using ih
  | spaced hc _ ih => simpa [hc] using ih

theorem Run.length_le {isDigit : Char → Bool} {run ds : List Char} (h : Run isDigit run ds) :
    ds.length ≤ run.length := by
  induction h with
  | nil => exact le_refl _
  | digit _ _ ih => exact Nat.succ_le_succ ih
  | spaced _ _ ih => exact Nat.succ_le_succ (Nat.le_succ_of_le ih)

theorem digits?_isSome : (digits? Text.isAsciiDigit text).isSome = true ↔ StartsDigit text := by
  cases text with
  | nil => simp [digits?, StartsDigit]
  | cons c text =>
    rw [digits?, Json.startsDigit_cons]
    cases hc : Text.isAsciiDigit c <;> simp [hc]

theorem digits?_suffix {isDigit : Char → Bool} (hunder : isDigit '_' = false) {ds : List Char}
    (h : digits? isDigit text = some (ds, rest)) : rest <:+ text := by
  rw [digits?] at h
  split at h
  · obtain ⟨run, hrun, -⟩ := digitRun_spec hunder text
    rw [Option.some_inj.mp h] at hrun
    exact ⟨run, hrun.symm⟩
  · exact absurd h (by simp)

theorem readBased?_suffix {i : Int} (h : readBased? text = some (i, rest)) : rest <:+ text := by
  rw [readBased?.eq_def] at h
  split at h
  next mark more =>
    simp only at h
    -- whatever the base, the digits are what is taken off
    refine List.IsSuffix.trans ?_ (⟨['0', mark], rfl⟩ : more <:+ '0' :: mark :: more)
    split_ifs at h
    all_goals
      obtain ⟨⟨digits, left⟩, hdigits, heq⟩ := Option.map_eq_some_iff.mp h
      obtain ⟨-, rfl⟩ := Prod.mk.inj heq
      exact digits?_suffix (by decide) hdigits
  next => exact absurd h (by simp)

theorem takeSign_suffix (text : List Char) : (takeSign text).2 <:+ text := by
  rw [takeSign.eq_def]
  split
  · exact List.suffix_cons _ _
  · exact List.suffix_cons _ _
  · exact List.suffix_rfl

theorem fraction?_suffix {ds : List Char} (h : fraction? text = some (ds, rest)) : rest <:+ text := by
  rw [fraction?.eq_def] at h
  split at h
  · exact (digits?_suffix (by decide) h).trans (List.suffix_cons _ _)
  · exact absurd h (by simp)

theorem exponent?_suffix {e : Int} (h : exponent? text = some (e, rest)) : rest <:+ text := by
  rw [exponent?.eq_def] at h
  split at h
  next mark more =>
    simp only at h
    split at h
    · obtain ⟨⟨digits, left⟩, hdigits, heq⟩ := Option.map_eq_some_iff.mp h
      obtain ⟨-, rfl⟩ := Prod.mk.inj heq
      exact ((digits?_suffix (by decide) hdigits).trans (takeSign_suffix more)).trans
        (List.suffix_cons mark more)
    · exact absurd h (by simp)
  next => exact absurd h (by simp)

/-- A text goes on with a decimal number: with another digit, a fraction or a power of ten. -/
def Continues (text : List Char) : Prop :=
  Extends Text.isAsciiDigit text ∨ Json.Continues text

theorem fraction?_isSome : (fraction? text).isSome = true ↔ StartsFraction text := by
  rw [fraction?.eq_def, StartsFraction]
  split
  next more => simp [digits?_isSome]
  next hpoint => simpa using fun more htext _ => hpoint more htext

theorem startsDigit_takeSign : StartsDigit (takeSign text).2 ↔ StartsSigned text := by
  rw [takeSign.eq_def]
  split
  · exact (startsSigned_sign (.inl rfl)).symm
  · exact (startsSigned_sign (.inr rfl)).symm
  next hminus hplus => exact (startsSigned_plain hminus hplus).symm

theorem exponent?_isSome : (exponent? text).isSome = true ↔ StartsPower text := by
  cases text with
  | nil => simp [exponent?, StartsPower]
  | cons mark text =>
    rw [startsPower_cons]
    simp only [exponent?]
    by_cases hmark : mark = 'e' ∨ mark = 'E'
    · rw [if_pos (by simpa using hmark), and_iff_right hmark, Option.isSome_map, digits?_isSome,
        startsDigit_takeSign]
    · rw [if_neg (by simpa using hmark)]
      simp [hmark]

theorem not_continues_iff :
    ¬ Continues text ↔
      ¬ Extends Text.isAsciiDigit text ∧ fraction? text = none ∧ exponent? text = none := by
  have hextends : StartsDigit text → Extends Text.isAsciiDigit text := by
    rintro ⟨d, hd, hdigit⟩
    obtain ⟨more, rfl⟩ := List.head?_eq_some_iff.mp hd
    exact ⟨d, more, hdigit, .inl rfl⟩
  rw [Continues, Json.Continues, ← fraction?_isSome, ← exponent?_isSome, ← or_assoc,
    or_iff_left_of_imp hextends, not_or, not_or, Option.not_isSome_iff_eq_none,
    Option.not_isSome_iff_eq_none]

/-- An integer with more digits than are read stands in front of a text, underscores apart. -/
def Overlong (digits : Nat) (text : List Char) : Prop :=
  ∃ sign ∈ [[], ['-'], ['+']], ∃ c run ds rest, text = sign ++ (c :: run ++ rest) ∧
    Text.isAsciiDigit c = true ∧ c ≠ '0' ∧ Run Text.isAsciiDigit run ds ∧ ¬ Continues rest ∧
    ds.length + 1 = digits ∧ Number.digitLimit < digits

/-- Digits that are read start with a digit and go as far as there are digits. -/
theorem digits?_spec {ds : List Char} (h : digits? Text.isAsciiDigit text = some (ds, rest)) :
    ∃ c run more, ds = c :: more ∧ text = c :: run ++ rest ∧ Text.isAsciiDigit c = true ∧
      Run Text.isAsciiDigit run more ∧ ¬ Extends Text.isAsciiDigit rest := by
  obtain ⟨d, hd, hdigit⟩ : StartsDigit text := digits?_isSome.mp (by rw [h]; rfl)
  obtain ⟨left, rfl⟩ := List.head?_eq_some_iff.mp hd
  rw [digits?, List.head?_cons, Option.any_some, if_pos hdigit] at h
  obtain ⟨run, hrun, hdigits, hend⟩ :=
    digitRun_spec (show Text.isAsciiDigit '_' = false from rfl) (d :: left)
  rw [Option.some_inj.mp h] at hrun hdigits hend
  cases hdigits with
  | nil =>
    -- a digit in front extends the empty run
    exact absurd ⟨d, left, hdigit, .inl hrun.symm⟩ hend
  | @digit c run more hc hdigits => exact ⟨c, run, more, rfl, hrun, hc, hdigits, hend⟩
  | spaced hc hdigits =>
    obtain ⟨rfl, -⟩ := List.cons.inj hrun
    exact absurd hdigit (by decide)

theorem digits?_of_run {c : Char} {run ds : List Char} (hc : Text.isAsciiDigit c = true)
    (h : Run Text.isAsciiDigit run ds) (hend : ¬ Extends Text.isAsciiDigit rest) :
    digits? Text.isAsciiDigit (c :: run ++ rest) = some (c :: ds, rest) := by
  rw [digits?, List.cons_append, List.head?_cons, Option.any_some, if_pos hc, ← List.cons_append,
    digitRun_of_run rfl (.digit hc h) hend]

theorem fraction?_ne_nil {ds : List Char} (h : fraction? text = some (ds, rest)) : ds ≠ [] := by
  rw [fraction?.eq_def] at h
  split at h
  next more =>
    obtain ⟨c, run, ds, rfl, -⟩ := digits?_spec h
    exact List.cons_ne_nil c ds
  next => exact absurd h (by simp)

/-- The integer part of a decimal number is a lone zero, or a run of digits that starts with no zero and
goes as far as there are digits. -/
theorem wholeDigits?_spec {whole : List Char} (h : wholeDigits? text = some (whole, rest)) :
    (whole = ['0'] ∧ text = '0' :: rest) ∨
      ∃ c run ds, whole = c :: ds ∧ text = c :: run ++ rest ∧ Text.isAsciiDigit c = true ∧ c ≠ '0' ∧
        Run Text.isAsciiDigit run ds ∧ ¬ Extends Text.isAsciiDigit rest := by
  rw [wholeDigits?.eq_def] at h
  split at h
  next more =>
    obtain ⟨rfl, rfl⟩ := Prod.mk.inj (Option.some_inj.mp h)
    exact .inl ⟨rfl, rfl⟩
  next hzero =>
    obtain ⟨c, run, ds, hds, htext, hc, hdigits, hend⟩ := digits?_spec h
    refine .inr ⟨c, run, ds, hds, htext, hc, ?_, hdigits, hend⟩
    rintro rfl
    exact hzero _ htext

theorem wholeDigits?_of_run {c : Char} {run ds : List Char} (hc : Text.isAsciiDigit c = true)
    (hzero : c ≠ '0') (h : Run Text.isAsciiDigit run ds) (hend : ¬ Extends Text.isAsciiDigit rest) :
    wholeDigits? (c :: run ++ rest) = some (c :: ds, rest) := by
  rw [wholeDigits?.eq_def]
  split
  next more heq => exact absurd (List.cons.inj heq).1 hzero
  next => exact digits?_of_run hc h hend

theorem readDecimal?_long_iff :
    readDecimal? text = some (.error (.integerTooLong digits)) ↔
      ∃ whole rest, wholeDigits? (takeSign text).2 = some (whole, rest) ∧ fraction? rest = none ∧
        exponent? rest = none ∧ whole.length = digits ∧ Number.digitLimit < digits := by
  rw [readDecimal?]
  generalize takeSign text = signed
  obtain ⟨negative, unsigned⟩ := signed
  simp only
  cases hwhole : wholeDigits? unsigned with
  | none => simp
  | some parts =>
    obtain ⟨whole, rest⟩ := parts
    have hsame : (∃ w r, some (whole, rest) = some (w, r) ∧ fraction? r = none ∧ exponent? r = none ∧
        w.length = digits ∧ Number.digitLimit < digits) ↔
        fraction? rest = none ∧ exponent? rest = none ∧ whole.length = digits ∧
          Number.digitLimit < digits :=
      ⟨by rintro ⟨_, _, ⟨⟩, h⟩; exact h, fun h => ⟨whole, rest, rfl, h⟩⟩
    rw [hsame]
    cases hfraction : fraction? rest with
    | some found =>
      obtain ⟨ds, left⟩ := found
      have hne := fraction?_ne_nil hfraction
      simp only [hfraction, Option.getD_some]
      cases hexponent : exponent? left <;> simp [hne]
    | none =>
      cases hexponent : exponent? rest with
      | some found =>
        simp only [hfraction, Option.getD_none, hexponent]
        simp
      | none =>
        by_cases hlong : Number.digitLimit < whole.length
        · simp only [hfraction, Option.getD_none, hexponent, List.isEmpty_nil, Bool.not_true,
            Bool.false_eq_true, if_false, hlong, if_true, true_and]
          constructor
          · intro h
            obtain rfl : whole.length = digits := by simpa using h
            exact ⟨rfl, hlong⟩
          · rintro ⟨rfl, -⟩
            rfl
        · simp only [hfraction, Option.getD_none, hexponent, List.isEmpty_nil, Bool.not_true,
            Bool.false_eq_true, if_false, hlong, true_and]
          refine iff_of_false (by simp) ?_
          rintro ⟨rfl, h⟩
          exact hlong h

theorem wholeDigits?_suffix {whole : List Char} (h : wholeDigits? text = some (whole, rest)) :
    rest <:+ text := by
  rcases wholeDigits?_spec h with ⟨-, rfl⟩ | ⟨c, run, ds, -, rfl, -⟩
  · exact List.suffix_cons '0' rest
  · exact List.suffix_append (c :: run) rest

/-- A decimal number is taken off the front, or it is an integer with too many digits. -/
theorem readDecimal?_cases {r : Read Value} (h : readDecimal? text = some r) :
    (∃ v rest, r = .ok (v, rest) ∧ rest <:+ text) ∨ ∃ digits, r = .error (.integerTooLong digits) := by
  rw [readDecimal?] at h
  have hsign := takeSign_suffix text
  generalize takeSign text = signed at h hsign
  obtain ⟨negative, unsigned⟩ := signed
  simp only at h hsign
  split at h
  next => exact absurd h (by simp)
  next whole left hwhole =>
    have hleft : left <:+ text := (wholeDigits?_suffix hwhole).trans hsign
    have hfraction : ((fraction? left).getD ([], left)).2 <:+ text := by
      cases hf : fraction? left with
      | none => exact hleft
      | some found => exact (fraction?_suffix hf).trans hleft
    generalize (fraction? left).getD ([], left) = parts at h hfraction
    obtain ⟨fraction, left'⟩ := parts
    simp only at h hfraction
    split at h
    next e after hexponent =>
      exact .inl ⟨_, after, (Option.some_inj.mp h).symm, (exponent?_suffix hexponent).trans hfraction⟩
    next =>
      split_ifs at h
      · exact .inl ⟨_, left', (Option.some_inj.mp h).symm, hfraction⟩
      · exact .inr ⟨_, (Option.some_inj.mp h).symm⟩
      all_goals exact .inl ⟨_, left', (Option.some_inj.mp h).symm, hfraction⟩

theorem readNamed?_suffix {v : Value} (h : readNamed? text = some (v, rest)) : rest <:+ text := by
  rw [readNamed?] at h
  have hsign := takeSign_suffix text
  generalize takeSign text = signed at h hsign
  obtain ⟨negative, unsigned⟩ := signed
  simp only at h hsign
  split at h
  · obtain ⟨-, rfl⟩ := by simpa using h
    exact List.IsSuffix.trans ⟨['i', 'n', 'f'], rfl⟩ hsign
  · obtain ⟨-, rfl⟩ := by simpa using h
    exact List.IsSuffix.trans ⟨['n', 'a', 'n'], rfl⟩ hsign
  · exact absurd h (by simp)

/-! ### Dates and times -/

theorem fixedNumber?_suffix {count low high n : Nat}
    (h : fixedNumber? count low high text = some (n, rest)) : rest <:+ text := by
  simp only [fixedNumber?] at h
  split at h
  · obtain ⟨-, rfl⟩ := by simpa using h
    exact List.drop_suffix _ _
  · exact absurd h (by simp)

theorem after?_suffix {mark : Char} (h : after? mark text = some rest) : rest <:+ text := by
  rw [after?.eq_def] at h
  split at h
  · split at h
    · obtain rfl := Option.some_inj.mp h
      exact List.suffix_cons _ _
    · exact absurd h (by simp)
  · exact absurd h (by simp)

theorem readDate?_suffix {d : Date} (h : readDate? text = some (d, rest)) : rest <:+ text := by
  simp only [readDate?, Option.bind_eq_bind, Option.bind_eq_some_iff, Option.some.injEq,
    Prod.mk.injEq] at h
  obtain ⟨⟨_, t₁⟩, h₁, t₂, h₂, ⟨_, t₃⟩, h₃, t₄, h₄, ⟨_, t₅⟩, h₅, -, rfl⟩ := h
  exact (fixedNumber?_suffix h₅).trans <| (after?_suffix h₄).trans <| (fixedNumber?_suffix h₃).trans <|
    (after?_suffix h₂).trans (fixedNumber?_suffix h₁)

theorem readMicros_suffix (text : List Char) : (readMicros text).2 <:+ text := by
  rw [readMicros.eq_def]
  split
  next more =>
    simp only
    split
    · exact List.suffix_rfl
    · exact (List.dropWhile_suffix _).trans (List.suffix_cons _ more)
  next => exact List.suffix_rfl

theorem readTime?_suffix {t : TimeOfDay} (h : readTime? text = some (t, rest)) : rest <:+ text := by
  simp only [readTime?, Option.bind_eq_bind, Option.bind_eq_some_iff, Option.some.injEq,
    Prod.mk.injEq] at h
  obtain ⟨⟨_, t₁⟩, h₁, t₂, h₂, ⟨_, t₃⟩, h₃, t₄, h₄, ⟨_, t₅⟩, h₅, -, rfl⟩ := h
  exact (readMicros_suffix _).trans <| (fixedNumber?_suffix h₅).trans <| (after?_suffix h₄).trans <|
    (fixedNumber?_suffix h₃).trans <| (after?_suffix h₂).trans (fixedNumber?_suffix h₁)

theorem readOffsetMinutes?_suffix {m : Int} (h : readOffsetMinutes? text = some (m, rest)) :
    rest <:+ text := by
  simp only [readOffsetMinutes?, Option.bind_eq_bind, Option.bind_eq_some_iff, Option.some.injEq,
    Prod.mk.injEq] at h
  obtain ⟨⟨_, t₁⟩, h₁, t₂, h₂, ⟨_, t₃⟩, h₃, -, rfl⟩ := h
  exact (fixedNumber?_suffix h₃).trans <| (after?_suffix h₂).trans (fixedNumber?_suffix h₁)

theorem readOffset_suffix (text : List Char) : (readOffset text).2 <:+ text := by
  rw [readOffset.eq_def]
  split
  · exact List.suffix_cons _ _
  · exact List.suffix_cons _ _
  · split
    next m left h => exact (readOffsetMinutes?_suffix h).trans (List.suffix_cons _ _)
    next => exact List.suffix_rfl
  · split
    next m left h => exact (readOffsetMinutes?_suffix h).trans (List.suffix_cons _ _)
    next => exact List.suffix_rfl
  · exact List.suffix_rfl

theorem readJoinedTime?_suffix {t : TimeOfDay} (h : readJoinedTime? text = some (t, rest)) :
    rest <:+ text := by
  rw [readJoinedTime?.eq_def] at h
  split at h
  · split at h
    · exact (readTime?_suffix h).trans (List.suffix_cons _ _)
    · exact absurd h (by simp)
  · exact absurd h (by simp)

theorem readMoment?_takes {r : Read Value} (h : readMoment? text = some r) :
    Takes text r := by
  rw [readMoment?] at h
  split at h
  next date left hdate =>
    have hleft := readDate?_suffix hdate
    split at h
    · obtain rfl := Option.some_inj.mp h
      rfl
    · split at h
      next time after htime =>
        obtain rfl := Option.some_inj.mp h
        exact ((readOffset_suffix after).trans (readJoinedTime?_suffix htime)).trans hleft
      next =>
        obtain rfl := Option.some_inj.mp h
        exact hleft
  next =>
    obtain ⟨⟨time, left⟩, htime, rfl⟩ := Option.map_eq_some_iff.mp h
    exact readTime?_suffix htime

/-! ### Atoms -/

/-- An atom is taken off the front, or it is an integer with too many digits, or the text is malformed. -/
theorem readAtom_cases (text : List Char) :
    (∃ v rest, readAtom text = .ok (v, rest) ∧ rest <:+ text) ∨ readAtom text = .error .malformed ∨
      ∃ digits, readAtom text = .error (.integerTooLong digits) ∧
        readDecimal? text = some (.error (.integerTooLong digits)) := by
  rw [readAtom.eq_def]
  split
  · exact .inl ⟨_, _, rfl, ['t', 'r', 'u', 'e'], rfl⟩
  · exact .inl ⟨_, _, rfl, ['f', 'a', 'l', 's', 'e'], rfl⟩
  · split
    next r hmoment =>
      have htakes := readMoment?_takes hmoment
      rcases r with fault | ⟨v, rest⟩
      · obtain rfl : fault = .malformed := htakes
        exact .inr (.inl rfl)
      · exact .inl ⟨v, rest, rfl, htakes⟩
    next =>
      split
      next hbased => exact .inl ⟨_, _, rfl, readBased?_suffix hbased⟩
      next =>
        split
        next r hdecimal =>
          rcases readDecimal?_cases hdecimal with ⟨v, rest, rfl, hrest⟩ | ⟨digits, rfl⟩
          · exact .inl ⟨v, rest, rfl, hrest⟩
          · exact .inr (.inr ⟨digits, rfl, hdecimal⟩)
        next =>
          split
          next hnamed => exact .inl ⟨_, _, rfl, readNamed?_suffix hnamed⟩
          next => exact .inr (.inl rfl)

theorem readAtom_suffix {v : Value} (h : readAtom text = .ok (v, rest)) : rest <:+ text := by
  rcases readAtom_cases text with ⟨_, _, hread, hrest⟩ | hread | ⟨_, hread, -⟩
  · obtain ⟨rfl, rfl⟩ := Prod.mk.inj (Except.ok.inj (hread.symm.trans h))
    exact hrest
  · exact absurd (hread.symm.trans h) (by simp)
  · exact absurd (hread.symm.trans h) (by simp)

theorem takeSign_spec (text : List Char) :
    ∃ sign ∈ [[], ['-'], ['+']], text = sign ++ (takeSign text).2 := by
  rw [takeSign.eq_def]
  split
  · exact ⟨['-'], by simp, rfl⟩
  · exact ⟨['+'], by simp, rfl⟩
  · exact ⟨[], by simp, rfl⟩

theorem overlong_of_readDecimal? (h : readDecimal? text = some (.error (.integerTooLong digits))) :
    Overlong digits text := by
  obtain ⟨whole, rest, hwhole, hfraction, hexponent, hlength, hlong⟩ := readDecimal?_long_iff.mp h
  obtain ⟨sign, hsign, htext⟩ := takeSign_spec text
  rcases wholeDigits?_spec hwhole with ⟨rfl, -⟩ | ⟨c, run, ds, rfl, hparts, hc, hzero, hrun, hend⟩
  · have hone : 1 = digits := hlength
    exact absurd hlong (by rw [← hone]; decide)
  · exact ⟨sign, hsign, c, run, ds, rest, by rw [← hparts, ← htext], hc, hzero, hrun,
      not_continues_iff.mpr ⟨hend, hfraction, hexponent⟩, hlength, hlong⟩

/-- Where a date or a time has its first separator, an overlong integer has a digit or an underscore. -/
theorem Overlong.head_drop (h : Overlong digits text) {k : Nat} (hlow : 1 ≤ k) (hhigh : k < 5) :
    ∃ c ∈ (text.drop k).head?, Text.isAsciiDigit c = true ∨ c = '_' := by
  obtain ⟨sign, hsign, c, run, ds, rest, rfl, hc, -, hrun, -, hlength, hlong⟩ := h
  have hmem : ∀ d ∈ c :: run, Text.isAsciiDigit d = true ∨ d = '_' :=
    List.forall_mem_cons.mpr ⟨.inl hc, hrun.isDigit⟩
  have hle := hrun.length_le
  have hlimit : Number.digitLimit = 4300 := rfl
  have hsmall : ∀ i, i < 5 → ∃ d, (c :: run ++ rest)[i]? = some d ∧ d ∈ c :: run := by
    intro i hi
    have hlt : i < (c :: run).length := by rw [List.length_cons]; omega
    exact ⟨_, by rw [List.getElem?_append_left hlt, List.getElem?_eq_getElem hlt],
      List.getElem_mem hlt⟩
  simp only [List.head?_drop]
  obtain ⟨k, rfl⟩ := Nat.exists_eq_add_of_le' hlow
  rcases by simpa using hsign with rfl | rfl | rfl
  · obtain ⟨d, hd, hdmem⟩ := hsmall (k + 1) hhigh
    exact ⟨d, hd, hmem d hdmem⟩
  · obtain ⟨d, hd, hdmem⟩ := hsmall k (Nat.lt_of_succ_lt hhigh)
    exact ⟨d, hd, hmem d hdmem⟩
  · obtain ⟨d, hd, hdmem⟩ := hsmall k (Nat.lt_of_succ_lt hhigh)
    exact ⟨d, hd, hmem d hdmem⟩

theorem after?_eq_none {mark : Char} (hdigit : Text.isAsciiDigit mark = false) (hunder : mark ≠ '_')
    (h : ∃ c ∈ text.head?, Text.isAsciiDigit c = true ∨ c = '_') : after? mark text = none := by
  obtain ⟨c, hc, hrun⟩ := h
  obtain ⟨more, rfl⟩ := List.head?_eq_some_iff.mp hc
  have hne : c ≠ mark := by
    rintro rfl
    rcases hrun with hrun | rfl
    · exact absurd (hdigit.symm.trans hrun) (by simp)
    · exact hunder rfl
  rw [after?, if_neg (by simpa using hne)]

theorem fixedNumber?_rest {count low high n : Nat}
    (h : fixedNumber? count low high text = some (n, rest)) : rest = text.drop count := by
  simp only [fixedNumber?] at h
  split at h
  · obtain ⟨-, rfl⟩ := Prod.mk.inj (Option.some_inj.mp h)
    rfl
  · exact absurd h (by simp)

theorem Overlong.readMoment?_eq (h : Overlong digits text) : readMoment? text = none := by
  have hdate : readDate? text = none := by
    refine Option.eq_none_iff_forall_ne_some.mpr fun found hfound => ?_
    simp only [readDate?, Option.bind_eq_bind, Option.bind_eq_some_iff] at hfound
    obtain ⟨⟨_, t₁⟩, h₁, t₂, h₂, -⟩ := hfound
    rw [fixedNumber?_rest h₁, after?_eq_none rfl (by decide) (h.head_drop (by decide) (by decide))] at h₂
    exact absurd h₂ (by simp)
  have htime : readTime? text = none := by
    refine Option.eq_none_iff_forall_ne_some.mpr fun found hfound => ?_
    simp only [readTime?, Option.bind_eq_bind, Option.bind_eq_some_iff] at hfound
    obtain ⟨⟨_, t₁⟩, h₁, t₂, h₂, -⟩ := hfound
    rw [fixedNumber?_rest h₁, after?_eq_none rfl (by decide) (h.head_drop (by decide) (by decide))] at h₂
    exact absurd h₂ (by simp)
  rw [readMoment?, hdate, htime]
  rfl

/-- An overlong integer starts with a sign or a digit other than zero. -/
theorem Overlong.head (h : Overlong digits text) :
    ∃ c more, text = c :: more ∧ (c = '-' ∨ c = '+' ∨ Text.isAsciiDigit c = true ∧ c ≠ '0') := by
  obtain ⟨sign, hsign, c, run, ds, rest, rfl, hc, hzero, -⟩ := h
  rcases by simpa using hsign with rfl | rfl | rfl
  · exact ⟨c, run ++ rest, rfl, .inr (.inr ⟨hc, hzero⟩)⟩
  · exact ⟨'-', c :: run ++ rest, rfl, .inl rfl⟩
  · exact ⟨'+', c :: run ++ rest, rfl, .inr (.inl rfl)⟩

theorem Overlong.head_ne (h : Overlong digits text) {d : Char}
    (hd : Text.isAsciiDigit d = false ∨ d = '0') (hsign : d ≠ '-' ∧ d ≠ '+') (more : List Char) :
    text ≠ d :: more := by
  obtain ⟨c, left, rfl, hc⟩ := h.head
  rintro heq
  obtain ⟨rfl, -⟩ := List.cons.inj heq
  rcases hc with rfl | rfl | ⟨hdigit, hzero⟩
  · exact hsign.1 rfl
  · exact hsign.2 rfl
  · rcases hd with hd | hd
    · exact absurd (hd.symm.trans hdigit) (by simp)
    · exact hzero hd

theorem Overlong.readDecimal?_eq (h : Overlong digits text) :
    readDecimal? text = some (.error (.integerTooLong digits)) := by
  obtain ⟨sign, hsign, c, run, ds, rest, rfl, hc, hzero, hrun, hrest, hlength, hlong⟩ := h
  obtain ⟨hend, hfraction, hexponent⟩ := not_continues_iff.mp hrest
  have hne : ∀ d, Text.isAsciiDigit d = false → c ≠ d := by
    rintro d hd rfl
    exact absurd (hd.symm.trans hc) (by simp)
  have hunsigned : (takeSign (sign ++ (c :: run ++ rest))).2 = c :: run ++ rest := by
    rcases by simpa using hsign with rfl | rfl | rfl
    · rw [List.nil_append, takeSign.eq_def]
      split
      next heq => exact absurd (List.cons.inj heq).1 (hne '-' rfl)
      next heq => exact absurd (List.cons.inj heq).1 (hne '+' rfl)
      next => rfl
    · rfl
    · rfl
  refine readDecimal?_long_iff.mpr ⟨c :: ds, rest, ?_, hfraction, hexponent, hlength, hlong⟩
  rw [hunsigned, wholeDigits?_of_run hc hzero hrun hend]

/-- An integer is refused for its length exactly if it is overlong. -/
theorem readAtom_long_iff : readAtom text = .error (.integerTooLong digits) ↔ Overlong digits text := by
  constructor
  · intro h
    rcases readAtom_cases text with ⟨_, _, hread, -⟩ | hread | ⟨_, hread, hdecimal⟩
    · exact absurd (hread.symm.trans h) (by simp)
    · exact absurd (hread.symm.trans h) (by simp)
    · rw [Fault.integerTooLong.inj (Except.error.inj (hread.symm.trans h))] at hdecimal
      exact overlong_of_readDecimal? hdecimal
  · intro h
    have hbased : readBased? text = none := by
      rw [readBased?.eq_def]
      split
      next => exact absurd rfl (h.head_ne (.inr rfl) (by decide) _)
      next => rfl
    rw [readAtom.eq_def]
    split
    next => exact absurd rfl (h.head_ne (.inl rfl) (by decide) _)
    next => exact absurd rfl (h.head_ne (.inl rfl) (by decide) _)
    next => simp only [h.readMoment?_eq, hbased, h.readDecimal?_eq]

end AnalyzerBridge.Toml
