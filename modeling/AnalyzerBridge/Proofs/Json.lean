/-
Where the JSON reader meets one of its limits.

A grammar says which texts have a value in front (`Passes`), and where on the way
to one an integer is too long or no level is left for a block (`Exceeds`).

* `readAtom_long_iff` — an integer is refused for its length exactly if more digits
  than the limit stand there and nothing makes them a fraction or a power;
* `followed_all` — the readers of values and entries keep to the grammar;
* `reads_of_passes`, `fails_of_exceeds` — and with fuel for each character of the
  text they do what it says;
* `parse_fault_iff` — so a text meets a limit exactly if the grammar says so.

Design notes: lists and tables differ in what stands in front of the value of an
entry (`Heads`) and in their brackets, so one set of rules does for both.  A level
is taken by a bracket and given back behind it, hence `depth` is how deep the part
in front may nest, whatever surrounds it.
-/
import AnalyzerBridge.Proofs.JsonAtom
import Mathlib.Data.List.Infix

namespace AnalyzerBridge

/-- Fuel for more than a cost is left after one call. -/
theorem exists_left_of_lt {cost fuel : Nat} (h : cost < fuel) : ∃ left, fuel = left + 1 :=
  Nat.exists_eq_succ_of_ne_zero (Nat.ne_of_gt (Nat.zero_lt_of_lt h))

end AnalyzerBridge

namespace AnalyzerBridge.Json

variable {limit depth fuel digits : Nat} {text rest entry after more : List Char} {fault : Fault}
  {v : Value}

/-! ### Integers that are too long -/

/-- A digit stands in front of a text. -/
def StartsDigit (text : List Char) : Prop :=
  ∃ d ∈ text.head?, Text.isAsciiDigit d = true

/-- A digit stands in front of a text, or behind a sign in front of it. -/
def StartsSigned (text : List Char) : Prop :=
  StartsDigit text ∨ ∃ sign more, text = sign :: more ∧ (sign = '-' ∨ sign = '+') ∧ StartsDigit more

/-- A fraction stands in front of a text. -/
def StartsFraction (text : List Char) : Prop :=
  ∃ more, text = '.' :: more ∧ StartsDigit more

/-- A power of ten stands in front of a text. -/
def StartsPower (text : List Char) : Prop :=
  ∃ mark more, text = mark :: more ∧ (mark = 'e' ∨ mark = 'E') ∧ StartsSigned more

/-- A text goes on with a number: with another digit, a fraction or a power of ten. -/
def Continues (text : List Char) : Prop :=
  StartsDigit text ∨ StartsFraction text ∨ StartsPower text

/-- An integer with more digits than the limit stands in front of a text. -/
def Overlong (limit digits : Nat) (text : List Char) : Prop :=
  ∃ sign ∈ [[], ['-']], ∃ run rest, text = sign ++ (run ++ rest) ∧
    (∀ c ∈ run, Text.isAsciiDigit c = true) ∧ run.head? ≠ some '0' ∧ ¬ Continues rest ∧
    run.length = digits ∧ limit < digits

theorem startsDigit_cons {c : Char} : StartsDigit (c :: text) ↔ Text.isAsciiDigit c = true := by
  simp [StartsDigit]

theorem digitsAfter?_isSome : (digitsAfter? text).isSome = true ↔ StartsDigit text := by
  cases text with
  | nil => simp [digitsAfter?, StartsDigit]
  | cons c text =>
    rw [digitsAfter?, startsDigit_cons]
    cases hc : Text.isAsciiDigit c <;> simp [hc]

theorem readFraction?_isSome : (readFraction? text).isSome = true ↔ StartsFraction text := by
  rw [readFraction?.eq_def, StartsFraction]
  split
  next more => simp [digitsAfter?_isSome]
  next hpoint => simpa using fun more htext _ => hpoint more htext

theorem startsSigned_sign {sign : Char} (h : sign = '-' ∨ sign = '+') :
    StartsSigned (sign :: text) ↔ StartsDigit text := by
  -- a sign is no digit, so it can only stand in front of one
  have hsign : Text.isAsciiDigit sign = false := by rcases h with rfl | rfl <;> rfl
  simp [StartsSigned, startsDigit_cons, hsign, h]

theorem startsSigned_plain (hminus : ∀ more, text ≠ '-' :: more) (hplus : ∀ more, text ≠ '+' :: more) :
    StartsSigned text ↔ StartsDigit text := by
  refine or_iff_left ?_
  rintro ⟨sign, more, htext, rfl | rfl, -⟩
  · exact hminus more htext
  · exact hplus more htext

theorem startsPower_cons {mark : Char} :
    StartsPower (mark :: text) ↔ (mark = 'e' ∨ mark = 'E') ∧ StartsSigned text := by
  constructor
  · rintro ⟨m, more, htext, hmark, h⟩
    obtain ⟨rfl, rfl⟩ := List.cons.inj htext
    exact ⟨hmark, h⟩
  · exact fun h => ⟨mark, text, rfl, h⟩

theorem readExponent?_isSome : (readExponent? text).isSome = true ↔ StartsPower text := by
  cases text with
  | nil => simp [readExponent?, StartsPower]
  | cons mark text =>
    rw [startsPower_cons]
    simp only [readExponent?]
    by_cases hmark : mark = 'e' ∨ mark = 'E'
    · rw [if_pos (by simpa using hmark), and_iff_right hmark]
      split
      next more => rw [Option.isSome_map, digitsAfter?_isSome, startsSigned_sign (.inl rfl)]
      next more => rw [Option.isSome_map, digitsAfter?_isSome, startsSigned_sign (.inr rfl)]
      next hminus hplus =>
        rw [Option.isSome_map, digitsAfter?_isSome, startsSigned_plain hminus hplus]
    · rw [if_neg (by simpa using hmark)]
      simp [hmark]

theorem not_continues_iff :
    ¬ Continues text ↔
      ¬ StartsDigit text ∧ readFraction? text = none ∧ readExponent? text = none := by
  rw [Continues, ← readFraction?_isSome, ← readExponent?_isSome, not_or, not_or,
    Option.not_isSome_iff_eq_none, Option.not_isSome_iff_eq_none]

theorem not_startsDigit_dropWhile (text : List Char) :
    ¬ StartsDigit (text.dropWhile Text.isAsciiDigit) := by
  rintro ⟨d, hd, hdigit⟩
  have hfalse := List.head?_dropWhile_not Text.isAsciiDigit text
  rw [Option.mem_def.mp hd] at hfalse
  simp [hdigit] at hfalse

theorem takeWhile_append_rest {run : List Char} (hrun : ∀ c ∈ run, Text.isAsciiDigit c = true)
    (hrest : ¬ StartsDigit rest) :
    (run ++ rest).takeWhile Text.isAsciiDigit = run ∧
      (run ++ rest).dropWhile Text.isAsciiDigit = rest := by
  rw [List.takeWhile_append_of_pos hrun, List.dropWhile_append_of_pos hrun]
  cases rest with
  | nil => exact ⟨List.append_nil _, rfl⟩
  | cons c rest =>
    rw [startsDigit_cons] at hrest
    rw [List.takeWhile_cons_of_neg hrest, List.dropWhile_cons_of_neg hrest]
    exact ⟨List.append_nil _, rfl⟩

/-- The digits of an integer part are a lone zero, or a run that starts with no zero and goes as far as
there are digits. -/
theorem integerDigits_spec (text : List Char) :
    ∃ run rest, integerDigits text = (run, rest) ∧ text = run ++ rest ∧
      (∀ c ∈ run, Text.isAsciiDigit c = true) ∧
      (run = ['0'] ∨ run.head? ≠ some '0' ∧ ¬ StartsDigit rest) := by
  rw [integerDigits.eq_def]
  split
  next rest => exact ⟨['0'], rest, rfl, rfl, List.forall_mem_singleton.mpr (by decide), .inl rfl⟩
  next hzero =>
    refine ⟨_, _, rfl, List.takeWhile_append_dropWhile.symm, fun c hc => List.mem_takeWhile_imp hc,
      .inr ⟨fun hhead => ?_, not_startsDigit_dropWhile text⟩⟩
    obtain ⟨run, hrun⟩ := List.head?_eq_some_iff.mp hhead
    have htext := List.takeWhile_append_dropWhile (p := Text.isAsciiDigit) (l := text)
    rw [hrun, List.cons_append] at htext
    exact hzero _ htext.symm

/-- Magnitudes are refused for their length alone. -/
theorem readMagnitude_long_iff (negative : Bool) :
    readMagnitude (some limit) negative text = .error (.integerTooLong digits) ↔
      (integerDigits text).1.length = digits ∧ limit < digits ∧
        readFraction? (integerDigits text).2 = none ∧ readExponent? (integerDigits text).2 = none := by
  rw [readMagnitude]
  generalize integerDigits text = parts
  obtain ⟨run, rest⟩ := parts
  cases run with
  | nil => simp; omega
  | cons c run =>
    simp only [List.isEmpty_cons, Bool.false_eq_true, if_false]
    cases hfraction : readFraction? rest with
    | some found => cases hexponent : readExponent? found.2 <;> simp [hexponent]
    | none =>
      cases hexponent : readExponent? rest with
      | some found => simp
      | none =>
        by_cases hlong : limit < (c :: run).length
        · simp only [Option.any_some, hlong, decide_true, if_true]
          constructor
          · intro h
            obtain rfl : (c :: run).length = digits := by simpa using h
            exact ⟨rfl, hlong, trivial, trivial⟩
          · rintro ⟨rfl, -⟩
            rfl
        · simp only [Option.any_some, hlong, decide_false, Bool.false_eq_true, if_false]
          refine iff_of_false (by simp) ?_
          rintro ⟨rfl, h, -⟩
          exact hlong h

theorem overlong_of_readAtom (hlimit : 0 < limit)
    (h : readAtom (some limit) text = .error (.integerTooLong digits)) : Overlong limit digits text := by
  -- whatever the sign, the rest of the text is an overlong magnitude
  have hmagnitude : ∃ sign ∈ [[], ['-']], ∃ more negative, text = sign ++ more ∧
      readMagnitude (some limit) negative more = .error (.integerTooLong digits) := by
    rw [readAtom.eq_def] at h
    simp only at h
    split at h
    next => exact absurd h (by simp)
    next =>
      split at h
      next more _ => exact ⟨['-'], by simp, more, true, rfl, h⟩
      next => exact ⟨[], by simp, text, false, rfl, h⟩
  obtain ⟨sign, hsign, more, negative, rfl, hread⟩ := hmagnitude
  obtain ⟨run, rest, hparts, rfl, hrun, hhead⟩ := integerDigits_spec more
  obtain ⟨hlength, hlong, hfraction, hexponent⟩ := (readMagnitude_long_iff negative).mp hread
  rw [hparts] at hlength hfraction hexponent
  rcases hhead with rfl | ⟨hzero, hdigit⟩
  · have hone : 1 = digits := hlength
    omega
  · exact ⟨sign, hsign, run, rest, rfl, hrun, hzero,
      not_continues_iff.mpr ⟨hdigit, hfraction, hexponent⟩, hlength, hlong⟩

theorem readAtom_of_overlong (h : Overlong limit digits text) :
    readAtom (some limit) text = .error (.integerTooLong digits) := by
  obtain ⟨sign, hsign, run, rest, rfl, hrun, hzero, hrest, hlength, hlong⟩ := h
  obtain ⟨hdigit, hfraction, hexponent⟩ := not_continues_iff.mp hrest
  obtain ⟨htake, hdrop⟩ := takeWhile_append_rest hrun hdigit
  cases run with
  | nil =>
    rw [← hlength] at hlong
    exact absurd hlong (Nat.not_lt_zero limit)
  | cons c run =>
    have hc := hrun c List.mem_cons_self
    rw [List.cons_append] at htake hdrop ⊢
    have hparts : integerDigits (c :: (run ++ rest)) = (c :: run, rest) := by
      rw [integerDigits, htake, hdrop]
      rintro _ ⟨⟩
      exact hzero rfl
    have hread : ∀ negative, readMagnitude (some limit) negative (c :: (run ++ rest)) =
        .error (.integerTooLong digits) := by
      intro negative
      rw [readMagnitude_long_iff, hparts]
      exact ⟨hlength, hlong, hfraction, hexponent⟩
    obtain ⟨hpositive, hnegative⟩ := noWord_digit hc (run ++ rest)
    rcases by simpa using hsign with rfl | rfl
    · have hminus : (c :: (run ++ rest)).head? ≠ some '-' := fun h =>
        ne_of_isAsciiDigit hc rfl (Option.some_inj.mp h).symm
      rw [List.nil_append, readAtom_of_noWord hpositive, if_neg hminus]
      exact hread false
    · rw [List.singleton_append, readAtom_of_noWord hnegative, if_pos List.head?_cons]
      exact hread true

/-- An integer is refused for its length exactly if it is overlong. -/
theorem readAtom_long_iff (hlimit : 0 < limit) :
    readAtom (some limit) text = .error (.integerTooLong digits) ↔ Overlong limit digits text :=
  ⟨overlong_of_readAtom hlimit, readAtom_of_overlong⟩

/-! ### The grammar -/

/-- What stands between two brackets. -/
inductive Block where
  | list
  | table

/-- The bracket in front of a block. -/
def Block.opening : Block → Char
  | .list => '['
  | .table => Char.ofNat 0x7B

/-- The bracket behind a block. -/
def Block.closing : Block → Char
  | .list => ']'
  | .table => Char.ofNat 0x7D

/-- An entry of a block, and the same text from the value of the entry on. -/
inductive Heads : Block → (text entry : List Char) → Prop
  | item {text : List Char} : Heads .list text text
  | field {text after entry : List Char} {name : LooseText}
      (hname : readString [] text = .ok (name, after)) (hcolon : skipBlanks after = ':' :: entry) :
      Heads .table ('"' :: text) (skipBlanks entry)

/-- What can stand in front of a text: a value, or the entries of a block up to its closing bracket. -/
inductive Part where
  | value
  | entries (block : Block)

/-- A text has a part in front that nests at most `depth` deep, and the rest behind it. -/
inductive Passes (limit : Nat) : Part → (depth : Nat) → (text rest : List Char) → Prop
  | string {depth : Nat} {text rest : List Char} {name : LooseText}
      (hname : readString [] text = .ok (name, rest)) : Passes limit .value depth ('"' :: text) rest
  | atom {depth : Nat} {text rest : List Char} {v : Value}
      (hatom : readAtom (some limit) text = .ok (v, rest)) : Passes limit .value depth text rest
  | empty {block : Block} {depth : Nat} {text rest : List Char}
      (hclose : skipBlanks text = block.closing :: rest) :
      Passes limit .value (depth + 1) (block.opening :: text) rest
  | filled {block : Block} {depth : Nat} {text rest : List Char}
      (h : Passes limit (.entries block) depth (skipBlanks text) rest) :
      Passes limit .value (depth + 1) (block.opening :: text) rest
  | last {block : Block} {depth : Nat} {text entry after rest : List Char}
      (hhead : Heads block text entry) (h : Passes limit .value depth entry after)
      (hclose : skipBlanks after = block.closing :: rest) :
      Passes limit (.entries block) depth text rest
  | next {block : Block} {depth : Nat} {text entry after more rest : List Char}
      (hhead : Heads block text entry) (h : Passes limit .value depth entry after)
      (hcomma : skipBlanks after = ',' :: more)
      (hmore : Passes limit (.entries block) depth (skipBlanks more) rest) :
      Passes limit (.entries block) depth text rest

/-- On the way to the end of the part in front of a text, a limit is met. -/
inductive Exceeds (limit : Nat) : Part → (depth : Nat) → (text : List Char) → Fault → Prop
  | deep {block : Block} {text : List Char} :
      Exceeds limit .value 0 (block.opening :: text) .tooDeep
  | long {depth digits : Nat} {text : List Char} (h : Overlong limit digits text) :
      Exceeds limit .value depth text (.integerTooLong digits)
  | inside {block : Block} {depth : Nat} {text : List Char} {fault : Fault}
      (h : Exceeds limit (.entries block) depth (skipBlanks text) fault) :
      Exceeds limit .value (depth + 1) (block.opening :: text) fault
  | entry {block : Block} {depth : Nat} {text entry : List Char} {fault : Fault}
      (hhead : Heads block text entry) (h : Exceeds limit .value depth entry fault) :
      Exceeds limit (.entries block) depth text fault
  | later {block : Block} {depth : Nat} {text entry after more : List Char} {fault : Fault}
      (hhead : Heads block text entry) (hentry : Passes limit .value depth entry after)
      (hcomma : skipBlanks after = ',' :: more)
      (h : Exceeds limit (.entries block) depth (skipBlanks more) fault) :
      Exceeds limit (.entries block) depth text fault

theorem Exceeds.ne_malformed {part : Part} (h : Exceeds limit part depth text fault) :
    fault ≠ .malformed := by
  induction h with
  | deep => simp
  | long => simp
  | inside _ ih => exact ih
  | entry _ _ ih => exact ih
  | later _ _ _ _ ih => exact ih

/-! ### The readers keep to the grammar -/

/-- The result of a reader is the rest behind a part, or the limit that is met in it, or the text is
malformed. -/
def Follows (limit : Nat) (part : Part) (depth : Nat) (text : List Char) : Read Value → Prop
  | .ok (_, rest) => Passes limit part depth text rest
  | .error fault => fault ≠ .malformed → Exceeds limit part depth text fault

/-- The reader of a part ends as `P` says, whatever it has read of a block before. -/
def Part.Ends (limit fuel depth : Nat) (text : List Char) (P : Read Value → Prop) : Part → Prop
  | .value => P (readValue (some limit) fuel depth text)
  | .entries .list => ∀ reversed, P (readItems (some limit) fuel depth reversed text)
  | .entries .table => ∀ reversed, P (readFields (some limit) fuel depth reversed text)

theorem malformed_of_readString {reversed : LooseText}
    (h : readString reversed text = .error fault) : fault = .malformed := by
  fun_induction readString reversed text with
  | case2 => exact absurd h (by simp)
  | case3 _ _ _ _ _ _ _ _ ih => exact ih h
  | case5 _ _ _ _ _ _ ih => exact ih h
  | case8 _ _ _ _ _ _ _ ih => exact ih h
  | _ => exact (Except.error.inj h).symm

theorem readMagnitude_ne_tooDeep (negative : Bool) :
    readMagnitude (some limit) negative text ≠ .error .tooDeep := by
  rw [readMagnitude]
  generalize integerDigits text = parts
  simp only
  split
  · simp
  · split
    · split <;> simp
    · split
      · simp
      · split <;> simp

theorem readAtom_follows (hlimit : 0 < limit) (depth : Nat) (text : List Char) :
    Follows limit .value depth text (readAtom (some limit) text) := by
  cases hread : readAtom (some limit) text with
  | ok found => exact .atom hread
  | error fault =>
    intro hfault
    cases fault with
    | malformed => exact absurd rfl hfault
    | integerTooLong digits => exact .long ((readAtom_long_iff hlimit).mp hread)
    | tooDeep =>
      rw [readAtom.eq_def] at hread
      simp only at hread
      split at hread
      next => exact absurd hread (by simp)
      next =>
        split at hread
        · exact absurd hread (readMagnitude_ne_tooDeep true)
        · exact absurd hread (readMagnitude_ne_tooDeep false)

section Step

variable (hlimit : 0 < limit)
  (ih : ∀ (part : Part) depth text, part.Ends limit fuel depth text (Follows limit part depth text))

/-- A block follows the grammar if its entries do. -/
theorem Follows.inside (block : Block) {r : Read Value}
    (h : Follows limit (.entries block) depth (skipBlanks text) r) :
    Follows limit .value (depth + 1) (block.opening :: text) r := by
  rcases r with fault | ⟨v, rest⟩
  · exact fun hfault => .inside (h hfault)
  · exact .filled h

include hlimit ih in
theorem readValue_follows (depth : Nat) (text : List Char) :
    Follows limit .value depth text (readValue (some limit) (fuel + 1) depth text) := by
  rw [readValue.eq_def]
  simp only
  split
  next text =>
    cases hname : readString [] text with
    | ok found => exact .string hname
    | error fault => exact fun hfault => absurd (malformed_of_readString hname) hfault
  next c text _ =>
    split
    next hc =>
      obtain rfl := eq_of_beq hc
      cases depth with
      | zero => exact fun _ => @Exceeds.deep _ .list text
      | succ depth =>
        simp only
        split
        next rest hclose => exact @Passes.empty _ .list _ _ _ hclose
        next => exact Follows.inside .list (ih (.entries .list) depth (skipBlanks text) [])
    next =>
      split
      next hc =>
        obtain rfl : c = Char.ofNat 0x7B := by rw [← eq_of_beq hc, Char.ofNat_toNat]
        cases depth with
        | zero => exact fun _ => @Exceeds.deep _ .table text
        | succ depth =>
          simp only
          split
          next => exact fun hfault => absurd rfl hfault
          next d rest hskip =>
            split
            next hd =>
              refine @Passes.empty _ .table _ _ _ (hskip.trans ?_)
              rw [Block.closing, ← eq_of_beq hd, Char.ofNat_toNat]
            next =>
              rw [← hskip]
              exact Follows.inside .table (ih (.entries .table) depth (skipBlanks text) [])
      next => exact readAtom_follows hlimit depth (c :: text)
  next => exact fun hfault => absurd rfl hfault

/-- What follows an entry decides how the entries go on. -/
theorem Follows.later {block : Block} {r : Read Value} (hhead : Heads block text entry)
    (hentry : Passes limit .value depth entry after) (hcomma : skipBlanks after = ',' :: more)
    (h : Follows limit (.entries block) depth (skipBlanks more) r) :
    Follows limit (.entries block) depth text r := by
  rcases r with fault | ⟨v, rest⟩
  · exact fun hfault => .later hhead hentry hcomma (h hfault)
  · exact .next hhead hentry hcomma h

include ih in
theorem readItems_follows (depth : Nat) (reversed : List Value) (text : List Char) :
    Follows limit (.entries .list) depth text
      (readItems (some limit) (fuel + 1) depth reversed text) := by
  have hvalue : Follows limit .value depth text (readValue (some limit) fuel depth text) :=
    ih .value depth text
  rw [readItems]
  split
  next fault hfault =>
    rw [hfault] at hvalue
    exact fun hne => .entry .item (hvalue hne)
  next v after hafter =>
    rw [hafter] at hvalue
    split
    next rest hclose => exact .last .item hvalue hclose
    next more hcomma => exact Follows.later .item hvalue hcomma (ih (.entries .list) depth _ _)
    next => exact fun hne => absurd rfl hne

include ih in
theorem readFields_follows (depth : Nat) (reversed : List (String × Value)) (text : List Char) :
    Follows limit (.entries .table) depth text
      (readFields (some limit) (fuel + 1) depth reversed text) := by
  rw [readFields.eq_def]
  simp only
  split
  next text =>
    split
    next fault hfault => exact fun hne => absurd (malformed_of_readString hfault) hne
    next name left hname =>
      split
      next entry hcolon =>
        have hhead : Heads .table ('"' :: text) (skipBlanks entry) := .field hname hcolon
        have hvalue : Follows limit .value depth (skipBlanks entry)
          (readValue (some limit) fuel depth (skipBlanks entry)) := ih .value depth _
        split
        next fault hfault =>
          rw [hfault] at hvalue
          exact fun hne => .entry hhead (hvalue hne)
        next v after hafter =>
          rw [hafter] at hvalue
          split
          next more hcomma => exact Follows.later hhead hvalue hcomma (ih (.entries .table) depth _ _)
          next c rest _ hskip =>
            split
            next hc =>
              refine .last hhead hvalue (hskip.trans ?_)
              rw [Block.closing, ← eq_of_beq hc, Char.ofNat_toNat]
            next => exact fun hne => absurd rfl hne
          next => exact fun hne => absurd rfl hne
      next => exact fun hne => absurd rfl hne
  next => exact fun hne => absurd rfl hne

end Step

/-- All readers keep to the grammar. -/
theorem followed_all (hlimit : 0 < limit) (fuel : Nat) (part : Part) (depth : Nat)
    (text : List Char) : part.Ends limit fuel depth text (Follows limit part depth text) := by
  induction fuel generalizing part depth text with
  | zero =>
    -- without fuel, every text counts as malformed
    rcases part with _ | _ | _
    · rw [Part.Ends, readValue]
      exact fun hne => absurd rfl hne
    · intro reversed
      rw [readItems]
      exact fun hne => absurd rfl hne
    · intro reversed
      rw [readFields]
      exact fun hne => absurd rfl hne
  | succ fuel ih =>
    rcases part with _ | _ | _
    · exact readValue_follows hlimit ih depth text
    · exact fun reversed => readItems_follows ih depth reversed text
    · exact fun reversed => readFields_follows ih depth reversed text

/-! ### What is left of a text -/

theorem skipBlanks_suffix (text : List Char) : skipBlanks text <:+ text :=
  List.dropWhile_suffix _

theorem afterWord?_suffix {word : List Char} :
    ∀ {text}, afterWord? word text = some rest → rest <:+ text := by
  induction word with
  | nil =>
    intro text h
    obtain rfl := Option.some_inj.mp h
    exact List.suffix_rfl
  | cons w word ih =>
    intro text h
    cases text with
    | nil => exact absurd h (by simp [afterWord?])
    | cons c text =>
      rw [afterWord?] at h
      split at h
      · exact (ih h).trans (List.suffix_cons c text)
      · exact absurd h (by simp)

theorem readString_suffix {reversed name : LooseText}
    (h : readString reversed text = .ok (name, rest)) : rest <:+ text := by
  fun_induction readString reversed text with
  | case2 =>
    obtain ⟨_, rfl⟩ := Prod.mk.inj (Except.ok.inj h)
    exact List.suffix_cons _ _
  | case3 reversed a b c d text unit _ ih => exact (ih h).trans ⟨['\\', 'u', a, b, c, d], rfl⟩
  | case5 reversed e text c _ _ ih => exact (ih h).trans ⟨['\\', e], rfl⟩
  | case8 reversed c text _ _ _ _ ih => exact (ih h).trans (List.suffix_cons c text)
  | _ => exact absurd h (by simp)

theorem digitsAfter?_suffix {run : List Char} (h : digitsAfter? text = some (run, rest)) :
    rest <:+ text := by
  simp only [digitsAfter?] at h
  split at h
  · exact absurd h (by simp)
  · obtain ⟨_, rfl⟩ := by simpa using h
    exact List.dropWhile_suffix _

theorem readFraction?_suffix {run : List Char} (h : readFraction? text = some (run, rest)) :
    rest <:+ text := by
  rw [readFraction?.eq_def] at h
  split at h
  · exact (digitsAfter?_suffix h).trans (List.suffix_cons _ _)
  · exact absurd h (by simp)

theorem readExponent?_suffix {e : Int} (h : readExponent? text = some (e, rest)) : rest <:+ text := by
  cases text with
  | nil => exact absurd h (by simp [readExponent?])
  | cons mark text =>
    simp only [readExponent?] at h
    split at h
    · refine List.IsSuffix.trans ?_ (List.suffix_cons mark text)
      -- with a plus, a minus or no sign, the digits are what is taken off
      split at h
      all_goals
        obtain ⟨⟨digits, left⟩, hdigits, heq⟩ := Option.map_eq_some_iff.mp h
        obtain ⟨_, rfl⟩ := Prod.mk.inj heq
      · exact (digitsAfter?_suffix hdigits).trans (List.suffix_cons _ _)
      · exact (digitsAfter?_suffix hdigits).trans (List.suffix_cons _ _)
      · exact digitsAfter?_suffix hdigits
    · exact absurd h (by simp)

theorem readMagnitude_suffix {negative : Bool}
    (h : readMagnitude (some limit) negative text = .ok (v, rest)) : rest <:+ text := by
  obtain ⟨run, left, hparts, rfl, -⟩ := integerDigits_spec text
  refine List.IsSuffix.trans ?_ (List.suffix_append run left)
  rw [readMagnitude, hparts] at h
  simp only at h
  split at h
  · exact absurd h (by simp)
  · split at h
    next fraction left' hfraction =>
      have hleft := readFraction?_suffix hfraction
      split at h
      next e left'' hexponent =>
        obtain ⟨_, rfl⟩ := Prod.mk.inj (Except.ok.inj h)
        exact (readExponent?_suffix hexponent).trans hleft
      next =>
        obtain ⟨_, rfl⟩ := Prod.mk.inj (Except.ok.inj h)
        exact hleft
    next =>
      split at h
      next e left' hexponent =>
        obtain ⟨_, rfl⟩ := Prod.mk.inj (Except.ok.inj h)
        exact readExponent?_suffix hexponent
      next =>
        split at h
        · exact absurd h (by simp)
        · obtain ⟨_, rfl⟩ := Prod.mk.inj (Except.ok.inj h)
          exact List.suffix_rfl

theorem readAtom_suffix (h : readAtom (some limit) text = .ok (v, rest)) : rest <:+ text := by
  rw [readAtom.eq_def] at h
  simp only at h
  split at h
  next found hfound =>
    obtain ⟨p, _, hp⟩ := List.exists_of_findSome?_eq_some hfound
    obtain ⟨left, hleft, rfl⟩ := Option.map_eq_some_iff.mp hp
    obtain ⟨_, rfl⟩ := Prod.mk.inj (Except.ok.inj h)
    exact afterWord?_suffix hleft
  next =>
    split at h
    · exact (readMagnitude_suffix h).trans (List.suffix_cons _ _)
    · exact readMagnitude_suffix h

/-- The blanks after a value, and a character after them, are left behind. -/
theorem suffix_of_skipBlanks {c : Char} (h : skipBlanks after = c :: rest) : c :: rest <:+ after := by
  have hskip := skipBlanks_suffix after
  rwa [h] at hskip

theorem Heads.suffix {block : Block} (h : Heads block text entry) : entry <:+ text := by
  cases h with
  | item => exact List.suffix_rfl
  | @field text after entry name hname hcolon =>
    have hafter := (readString_suffix hname).trans (List.suffix_cons '"' text)
    have hentry := (List.suffix_cons _ _).trans (suffix_of_skipBlanks hcolon)
    exact ((skipBlanks_suffix entry).trans hentry).trans hafter

theorem Passes.suffix {part : Part} (h : Passes limit part depth text rest) : rest <:+ text := by
  induction h with
  | string hname => exact (readString_suffix hname).trans (List.suffix_cons _ _)
  | atom hatom => exact readAtom_suffix hatom
  | empty hclose =>
    exact ((List.suffix_cons _ _).trans (suffix_of_skipBlanks hclose)).trans (List.suffix_cons _ _)
  | filled _ ih => exact (ih.trans (skipBlanks_suffix _)).trans (List.suffix_cons _ _)
  | last hhead _ hclose ih =>
    exact (((List.suffix_cons _ _).trans (suffix_of_skipBlanks hclose)).trans ih).trans hhead.suffix
  | next hhead _ hcomma _ ih ihmore =>
    have hmore := (ihmore.trans (skipBlanks_suffix _)).trans (List.suffix_cons ',' _)
    exact ((hmore.trans (suffix_of_skipBlanks hcomma)).trans ih).trans hhead.suffix

/-- What follows an entry and its comma is shorter than the entries from there on. -/
theorem length_later {block : Block} (hhead : Heads block text entry)
    (h : Passes limit .value depth entry after) (hcomma : skipBlanks after = ',' :: more) :
    (skipBlanks more).length < text.length := by
  have hskip := (skipBlanks_suffix more).length_le
  have hmore := (suffix_of_skipBlanks hcomma).length_le
  have hafter := h.suffix.length_le
  have hentry := hhead.suffix.length_le
  rw [List.length_cons] at hmore
  omega

/-! ### The grammar is what the readers do -/

theorem readAtom_punctuation {c : Char} (h : c ∈ ['"', '[', ']', Char.ofNat 0x7B]) (text : List Char) :
    readAtom (some limit) (c :: text) = .error .malformed := by
  rcases by simpa only [List.mem_cons, List.not_mem_nil, or_false] using h with rfl | rfl | rfl | rfl
  · rfl
  · rfl
  · rfl
  · rfl

/-- Where an atom stands, the reader of values reads it. -/
theorem readValue_of_readAtom (h : readAtom (some limit) text ≠ .error .malformed) :
    readValue (some limit) (fuel + 1) depth text = readAtom (some limit) text := by
  cases text with
  | nil => exact absurd rfl h
  | cons c text =>
    have hne : ∀ d ∈ ['"', '[', ']', Char.ofNat 0x7B], c ≠ d := by
      rintro d hd rfl
      exact h (readAtom_punctuation hd text)
    refine readValue_atom (hne '"' (by simp)) (hne '[' (by simp)) (fun hc => ?_) text
    exact hne (Char.ofNat 0x7B) (by simp) (by rw [← hc, Char.ofNat_toNat])

/-- No value starts with a closing bracket. -/
theorem Passes.head_ne (h : Passes limit .value depth text rest) : text.head? ≠ some ']' := by
  cases h with
  | string => simp
  | atom hatom =>
    intro hhead
    obtain ⟨more, rfl⟩ := List.head?_eq_some_iff.mp hhead
    rw [readAtom_punctuation (by simp)] at hatom
    exact absurd hatom (by simp)
  | @empty block => cases block <;> simp [Block.opening]
  | @filled block => cases block <;> simp [Block.opening]

theorem Exceeds.head_ne (h : Exceeds limit .value depth text fault) : text.head? ≠ some ']' := by
  cases h with
  | @deep block => cases block <;> simp [Block.opening]
  | long h =>
    intro hhead
    obtain ⟨more, rfl⟩ := List.head?_eq_some_iff.mp hhead
    have hread := readAtom_of_overlong h
    rw [readAtom_punctuation (by simp)] at hread
    exact absurd hread (by simp)
  | @inside block => cases block <;> simp [Block.opening]

theorem readValue_bracket (text : List Char) :
    readValue (some limit) (fuel + 1) (depth + 1) ('[' :: text) =
      match skipBlanks text with
      | ']' :: rest => .ok (.list [], rest)
      | rest => readItems (some limit) fuel depth [] rest := by
  rw [readValue.eq_def]
  rfl

theorem readValue_brace (text : List Char) :
    readValue (some limit) (fuel + 1) (depth + 1) (Char.ofNat 0x7B :: text) =
      match skipBlanks text with
      | [] => .error .malformed
      | c :: rest =>
        if c.toNat == 0x7D then .ok (.table [], rest)
        else readFields (some limit) fuel depth [] (c :: rest) := by
  rw [readValue.eq_def]
  rfl

/-- The reader of values goes into a block that has an entry. -/
theorem readValue_inside {block : Block} {P : Read Value → Prop}
    (hhead : Heads block (skipBlanks text) entry) (hentry : entry.head? ≠ some ']')
    (h : (Part.entries block).Ends limit fuel depth (skipBlanks text) P) :
    P (readValue (some limit) (fuel + 1) (depth + 1) (block.opening :: text)) := by
  cases block with
  | list =>
    obtain rfl : skipBlanks text = entry := by cases hhead; rfl
    rw [Block.opening, readValue_bracket]
    split
    next rest hclose => exact absurd (by rw [hclose]; rfl) hentry
    next => exact h []
  | table =>
    obtain ⟨more, hquote⟩ : ∃ more, skipBlanks text = '"' :: more := by
      generalize skipBlanks text = inner at hhead
      cases hhead with
      | field => exact ⟨_, rfl⟩
    rw [Block.opening, readValue_brace]
    rw [hquote] at h ⊢
    exact h []

theorem readValue_empty {block : Block} (hclose : skipBlanks text = block.closing :: rest) :
    ∃ v, readValue (some limit) (fuel + 1) (depth + 1) (block.opening :: text) = .ok (v, rest) := by
  cases block with
  | list =>
    rw [Block.opening, readValue_bracket, hclose]
    exact ⟨.list [], rfl⟩
  | table =>
    rw [Block.opening, readValue_brace, hclose]
    exact ⟨.table [], rfl⟩

section Entry

variable {block : Block} (hhead : Heads block text entry)

include hhead

theorem ends_of_fault (h : readValue (some limit) fuel depth entry = .error fault) :
    (Part.entries block).Ends limit (fuel + 1) depth text (· = .error fault) := by
  cases hhead with
  | item =>
    intro reversed
    rw [readItems, h]
  | field hname hcolon =>
    intro reversed
    rw [readFields, hname]
    simp only [hcolon, h]

theorem ends_of_close (h : readValue (some limit) fuel depth entry = .ok (v, after))
    (hclose : skipBlanks after = block.closing :: rest) :
    (Part.entries block).Ends limit (fuel + 1) depth text (∃ v, · = .ok (v, rest)) := by
  cases hhead with
  | item =>
    intro reversed
    have hskip : skipBlanks after = ']' :: rest := hclose
    rw [readItems, h]
    simp only [hskip]
    exact ⟨_, rfl⟩
  | field hname hcolon =>
    intro reversed
    have hskip : skipBlanks after = Char.ofNat 0x7D :: rest := hclose
    rw [readFields, hname]
    simp only [hcolon, h, hskip]
    exact ⟨_, rfl⟩

theorem ends_of_comma {P : Read Value → Prop}
    (h : readValue (some limit) fuel depth entry = .ok (v, after))
    (hcomma : skipBlanks after = ',' :: more)
    (hmore : (Part.entries block).Ends limit fuel depth (skipBlanks more) P) :
    (Part.entries block).Ends limit (fuel + 1) depth text P := by
  cases hhead with
  | item =>
    intro reversed
    rw [readItems, h]
    simp only [hcomma]
    exact hmore _
  | field hname hcolon =>
    intro reversed
    rw [readFields, hname]
    simp only [hcolon, h, hcomma]
    exact hmore _

end Entry

/-- A part costs its reader two calls for each character, and one for the first entry of a block. -/
def Part.cost (text : List Char) : Part → Nat
  | .value => 2 * text.length
  | .entries _ => 2 * text.length + 1

theorem Passes.heads {block : Block} (h : Passes limit (.entries block) depth text rest) :
    ∃ entry, Heads block text entry ∧ entry.head? ≠ some ']' := by
  cases h with
  | last hhead h => exact ⟨_, hhead, h.head_ne⟩
  | next hhead h => exact ⟨_, hhead, h.head_ne⟩

theorem Exceeds.heads {block : Block} (h : Exceeds limit (.entries block) depth text fault) :
    ∃ entry, Heads block text entry ∧ entry.head? ≠ some ']' := by
  cases h with
  | entry hhead h => exact ⟨_, hhead, h.head_ne⟩
  | later hhead h => exact ⟨_, hhead, h.head_ne⟩

/-- A part that a text has in front is read to its end. -/
theorem reads_of_passes {part : Part} (h : Passes limit part depth text rest) (fuel : Nat)
    (hfuel : part.cost text < fuel) :
    part.Ends limit fuel depth text (∃ v, · = .ok (v, rest)) := by
  induction h generalizing fuel with
  | @string depth text rest name hname =>
    obtain ⟨fuel, rfl⟩ := exists_left_of_lt hfuel
    refine ⟨.ofLoose name, ?_⟩
    rw [readValue, hname]
    rfl
  | @atom depth text rest v hatom =>
    obtain ⟨fuel, rfl⟩ := exists_left_of_lt hfuel
    refine ⟨v, ?_⟩
    rw [readValue_of_readAtom (by rw [hatom]; simp), hatom]
  | empty hclose =>
    obtain ⟨fuel, rfl⟩ := exists_left_of_lt hfuel
    exact readValue_empty hclose
  | @filled block depth text rest h ih =>
    obtain ⟨fuel, rfl⟩ := exists_left_of_lt hfuel
    obtain ⟨entry, hhead, hentry⟩ := h.heads
    have hskip := (skipBlanks_suffix text).length_le
    rw [Part.cost, List.length_cons] at hfuel
    exact readValue_inside hhead hentry (ih fuel (by rw [Part.cost]; omega))
  | @last block depth text entry after rest hhead h hclose ih =>
    obtain ⟨fuel, rfl⟩ := exists_left_of_lt hfuel
    have hentry := hhead.suffix.length_le
    rw [Part.cost] at hfuel
    obtain ⟨v, hread⟩ := ih fuel (by rw [Part.cost]; omega)
    exact ends_of_close hhead hread hclose
  | @next block depth text entry after more rest hhead h hcomma hmore ih ihmore =>
    obtain ⟨fuel, rfl⟩ := exists_left_of_lt hfuel
    have hentry := hhead.suffix.length_le
    have hlater := length_later hhead h hcomma
    rw [Part.cost] at hfuel
    obtain ⟨v, hread⟩ := ih fuel (by rw [Part.cost]; omega)
    exact ends_of_comma hhead hread hcomma (ihmore fuel (by rw [Part.cost]; omega))

/-- A part in which a limit is met is refused for that limit. -/
theorem fails_of_exceeds {part : Part} (h : Exceeds limit part depth text fault) (fuel : Nat)
    (hfuel : part.cost text < fuel) : part.Ends limit fuel depth text (· = .error fault) := by
  induction h generalizing fuel with
  | @deep block text =>
    obtain ⟨fuel, rfl⟩ := exists_left_of_lt hfuel
    rw [Part.Ends, readValue.eq_def]
    cases block with
    | list => rfl
    | table => rfl
  | long h =>
    obtain ⟨fuel, rfl⟩ := exists_left_of_lt hfuel
    have hread := readAtom_of_overlong h
    rw [Part.Ends, readValue_of_readAtom (by rw [hread]; simp), hread]
  | @inside block depth text fault h ih =>
    obtain ⟨fuel, rfl⟩ := exists_left_of_lt hfuel
    obtain ⟨entry, hhead, hentry⟩ := h.heads
    have hskip := (skipBlanks_suffix text).length_le
    rw [Part.cost, List.length_cons] at hfuel
    exact readValue_inside (P := (· = .error fault)) hhead hentry (ih fuel (by rw [Part.cost]; omega))
  | @entry block depth text entry fault hhead h ih =>
    obtain ⟨fuel, rfl⟩ := exists_left_of_lt hfuel
    have hentry := hhead.suffix.length_le
    rw [Part.cost] at hfuel
    exact ends_of_fault hhead (ih fuel (by rw [Part.cost]; omega))
  | @later block depth text entry after more fault hhead hentry hcomma h ih =>
    obtain ⟨fuel, rfl⟩ := exists_left_of_lt hfuel
    have hlength := hhead.suffix.length_le
    have hlater := length_later hhead hentry hcomma
    rw [Part.cost] at hfuel
    obtain ⟨v, hread⟩ := reads_of_passes hentry fuel (by rw [Part.cost]; omega)
    exact ends_of_comma hhead hread hcomma (ih fuel (by rw [Part.cost]; omega))

/-- A text meets a limit exactly if the grammar says so. -/
theorem parse_fault_iff (hlimit : 0 < limit) (hfault : fault ≠ .malformed) :
    parse (some limit) text depth = .error fault ↔
      Exceeds limit .value depth (skipBlanks text) fault := by
  rw [parse]
  constructor
  · intro h
    have hfollows : Follows limit .value depth (skipBlanks text)
        (readValue (some limit) (2 * text.length + 2) depth (skipBlanks text)) :=
      followed_all hlimit (2 * text.length + 2) .value depth (skipBlanks text)
    split at h
    next f hread =>
      obtain rfl := Except.error.inj h
      rw [hread] at hfollows
      exact hfollows hfault
    next v rest hread =>
      split at h
      · exact absurd h (by simp)
      · exact absurd (Except.error.inj h).symm hfault
  · intro h
    have hskip := (skipBlanks_suffix text).length_le
    have hread : readValue (some limit) (2 * text.length + 2) depth (skipBlanks text) = .error fault :=
      fails_of_exceeds h _ (by rw [Part.cost]; omega)
    rw [hread]

end AnalyzerBridge.Json
