/-
What reading an analyzer run can come to.

* `lineFinding_cases`, `parseStderr_cases` — the error stream is read to the end
  unless a position in it has a number with too many digits, or it is empty and the
  exit code that stands for it has;
* `payloadOf_cases` — the output stream is read to the end unless, on the way to the
  end of its value, an integer is too long or a block too deep (`Overlimit`);
* `beyond_of_digits`, `beyond_of_code`, `overlimit_of_digits` — one long number is
  enough, on either stream or as the exit code;
* `translate_cases` — hence a run can be read exactly if it is not `Overtaxing`;
* `reads_of_translate` — the outcome of a run that can be read, one case for each
  rule of the policy.

Design notes: output of the wrong shape is no failure, it is output without a
payload (`NoPayload`); what remains are the limits of the number and the JSON
readers.  How deep the JSON reader goes is a parameter of all of this.
-/
import AnalyzerBridge.Proofs.Json
import AnalyzerBridge.Proofs.Number
import AnalyzerBridge.Proofs.Text
import AnalyzerBridge.Transcript
import Mathlib.Algebra.Group.Int.Defs
import Mathlib.Algebra.Group.Nat.Defs

namespace AnalyzerBridge

/-! ### Limits -/

/-- An integer with more digits than are ever written. -/
def Unspellable (i : Int) : Prop :=
  10 ^ Number.digitLimit ≤ i.natAbs

/-- The failure of a reader or a writer that has met one of its limits. -/
def Failure.IsLimit (f : Failure) : Prop :=
  f = .tooDeep ∨ (∃ digits, f = .integerTooLong digits) ∨ f = .integerUnspellable

theorem not_unspellable_one : ¬ Unspellable 1 :=
  Nat.not_le.mpr (Nat.one_lt_pow (by decide) (by decide))

theorem spellInteger_cases (i : Int) :
    (¬ Unspellable i ∧ spellInteger i = .ok (toString i)) ∨
      (Unspellable i ∧ spellInteger i = .error .integerUnspellable) := by
  have hspellable : (Value.int i).isSpellable = decide (i.natAbs < 10 ^ Number.digitLimit) := rfl
  rw [spellInteger, hspellable, Unspellable]
  by_cases h : i.natAbs < 10 ^ Number.digitLimit
  · exact .inl ⟨Nat.not_le.mpr h, if_pos (decide_eq_true h)⟩
  · exact .inr ⟨Nat.not_lt.mp h, if_neg (by simpa using h)⟩

namespace Transcript

/-! ### The error stream -/

theorem positionAt?_digits {text line column message : List Char}
    (h : positionAt? text = some (line, column, message)) :
    (line ≠ [] ∧ ∀ c ∈ line, Text.isDigit c = true) ∧
      (column ≠ [] ∧ ∀ c ∈ column, Text.isDigit c = true) := by
  simp only [positionAt?] at h
  split at h
  next rest hline _ =>
    split at h
    next c message' hcolumn _ =>
      obtain ⟨rfl, rfl, -⟩ := by simpa using h
      exact ⟨⟨List.isEmpty_eq_false_iff.mp hline, fun c hc => List.mem_takeWhile_imp hc⟩,
        ⟨List.isEmpty_eq_false_iff.mp hcolumn, fun c hc => List.mem_takeWhile_imp hc⟩⟩
    next => exact absurd h (by simp)
  next => exact absurd h (by simp)

/-- Two runs of digits and a message, with colons between them, are a position. -/
theorem positionAt?_append {line column message : List Char} {c : Char} (hline : line ≠ [])
    (hl : ∀ d ∈ line, Text.isDigit d = true) (hcolumn : column ≠ [])
    (hc : ∀ d ∈ column, Text.isDigit d = true) :
    positionAt? (line ++ ':' :: (column ++ ':' :: c :: message)) =
      some (line, column, c :: message) := by
  have hcolon : Text.isDigit ':' = false := by decide
  -- a colon is no digit, so each run ends where the text says it does
  have htake : ∀ {run : List Char} (rest : List Char), (∀ d ∈ run, Text.isDigit d = true) →
      (run ++ ':' :: rest).takeWhile Text.isDigit = run := fun rest h => by
    rw [List.takeWhile_append_of_pos h, List.takeWhile_cons_of_neg (by simp [hcolon]), List.append_nil]
  have hdrop : ∀ {run : List Char} (rest : List Char), (∀ d ∈ run, Text.isDigit d = true) →
      (run ++ ':' :: rest).dropWhile Text.isDigit = ':' :: rest := fun rest h => by
    rw [List.dropWhile_append_of_pos h, List.dropWhile_cons_of_neg (by simp [hcolon])]
  simp only [positionAt?, htake _ hl, hdrop _ hl, htake _ hc, hdrop _ hc,
    List.isEmpty_eq_false_iff.mpr hline, List.isEmpty_eq_false_iff.mpr hcolumn]

theorem findPosition?_append {line column message : List Char} {c : Char} (hline : line ≠ [])
    (hl : ∀ d ∈ line, Text.isDigit d = true) (hcolumn : column ≠ [])
    (hc : ∀ d ∈ column, Text.isDigit d = true) :
    findPosition? (line ++ ':' :: (column ++ ':' :: c :: message)) =
      some (line, column, c :: message) := by
  have hposition : positionAt? (line ++ ':' :: (column ++ ':' :: c :: message)) =
      some (line, column, c :: message) := positionAt?_append hline hl hcolumn hc
  cases line with
  | nil => exact absurd rfl hline
  | cons d line =>
    rw [List.cons_append] at hposition ⊢
    rw [findPosition?, hposition]

theorem findPosition?_digits {text line column message : List Char}
    (h : findPosition? text = some (line, column, message)) :
    (line ≠ [] ∧ ∀ c ∈ line, Text.isDigit c = true) ∧
      (column ≠ [] ∧ ∀ c ∈ column, Text.isDigit c = true) := by
  induction text with
  | nil => exact absurd h (by simp [findPosition?])
  | cons c rest ih =>
    rw [findPosition?] at h
    split at h
    next found hfound =>
      obtain rfl := Option.some_inj.mp h
      exact positionAt?_digits hfound
    next => exact ih h

/-- A number of the stream counted from zero is refused exactly if it is too long. -/
theorem zeroBased_of_digits {digits : List Char} (hne : digits ≠ [])
    (h : ∀ c ∈ digits, Text.isDigit c = true) :
    zeroBased digits =
      if Number.digitLimit < digits.length then .error (.integerTooLong digits.length)
      else .ok (max 0 (Text.ofDigits 10 (Number.values digits) - 1)) := by
  rw [zeroBased, Number.readInteger_of_digits hne h]
  by_cases hlong : Number.digitLimit < digits.length
  · simp [hlong, Failure.ofInteger]
  · simp [hlong]

/-- A line has a position with a number of too many digits. -/
def OverlongPosition (line : List Char) : Prop :=
  ∃ l c message, findPosition? line = some (l, c, message) ∧
    (Number.digitLimit < l.length ∨ Number.digitLimit < c.length)

/-- How a line is read: it has a finding, or a number with too many digits. -/
theorem lineFinding_cases (line : List Char) :
    (∃ d, lineFinding line = .ok d ∧ ¬ OverlongPosition line) ∨
      (∃ digits, lineFinding line = .error (.integerTooLong digits) ∧ OverlongPosition line) := by
  cases hfind : findPosition? line with
  | none => simp [OverlongPosition, lineFinding, hfind]
  | some found =>
    obtain ⟨l, c, message⟩ := found
    obtain ⟨⟨hl, hldigits⟩, hc, hcdigits⟩ := findPosition?_digits hfind
    have hlimit : OverlongPosition line ↔
        Number.digitLimit < l.length ∨ Number.digitLimit < c.length := by
      rw [OverlongPosition, hfind]
      constructor
      · rintro ⟨_, _, _, h, hlong⟩
        obtain ⟨rfl, rfl, rfl⟩ := by simpa using h
        exact hlong
      · exact fun hlong => ⟨l, c, message, rfl, hlong⟩
    rw [hlimit, lineFinding, hfind]
    simp only [zeroBased_of_digits hl hldigits, zeroBased_of_digits hc hcdigits]
    by_cases hlong : Number.digitLimit < l.length
    · simp [hlong]
    · by_cases hclong : Number.digitLimit < c.length <;> simp [hlong, hclong]

/-- A list is read to the end, or ends with the failure of one of its items. -/
theorem mapM_cases {α β : Type} (g : α → Except Failure β) (xs : List α) :
    (∃ ys, xs.mapM g = .ok ys ∧ ∀ x ∈ xs, ∃ y, g x = .ok y) ∨
      ∃ f, xs.mapM g = .error f ∧ ∃ x ∈ xs, g x = .error f := by
  induction xs with
  | nil => exact Or.inl ⟨[], rfl, by simp⟩
  | cons x xs ih =>
    rw [List.mapM_cons]
    cases hx : g x with
    | error f => exact Or.inr ⟨f, rfl, x, by simp, hx⟩
    | ok y =>
      rcases ih with ⟨ys, hys, hall⟩ | ⟨f, hf, z, hz, hzf⟩
      · refine Or.inl ⟨y :: ys, by rw [hys]; rfl, fun z hz => ?_⟩
        rcases List.mem_cons.mp hz with rfl | hz
        · exact ⟨y, hx⟩
        · exact hall z hz
      · exact Or.inr ⟨f, by rw [hf]; rfl, z, by simp [hz], hzf⟩

/-- What is read from items is read from one of them. -/
theorem mem_mapM {α β : Type} {g : α → Except Failure β} {xs : List α} {ys : List β}
    (h : xs.mapM g = .ok ys) : ∀ y ∈ ys, ∃ x ∈ xs, g x = .ok y := by
  induction xs generalizing ys with
  | nil =>
    obtain rfl := Except.ok.inj h
    simp
  | cons x xs ih =>
    rw [List.mapM_cons] at h
    cases hx : g x with
    | error f =>
      rw [hx] at h
      exact absurd h (by simp [bind, Except.bind])
    | ok y =>
      cases hxs : xs.mapM g with
      | error f =>
        rw [hx, hxs] at h
        exact absurd h (by simp [bind, Except.bind])
      | ok tail =>
        rw [hx, hxs] at h
        obtain rfl := Except.ok.inj h
        intro z hz
        rcases List.mem_cons.mp hz with rfl | hmem
        · exact ⟨x, List.mem_cons_self, hx⟩
        · obtain ⟨x', hx', hread⟩ := ih hxs z hmem
          exact ⟨x', List.mem_cons_of_mem x hx', hread⟩

/-- An error stream has a line with a number of too many digits, or no line at all while the exit code
that stands for it has too many. -/
def Beyond (stderr : List UInt8) (exitCode : Option Int) : Prop :=
  (∃ line ∈ contentLines (Text.Utf8.decodeLossy stderr), OverlongPosition line) ∨
    contentLines (Text.Utf8.decodeLossy stderr) = [] ∧ ∃ code, exitCode = some code ∧ Unspellable code

/-- The finding for an empty stream under an exit code that can be spelled. -/
def silentFinding (exitCode : Option Int) : Descriptor where
  message := LooseText.ofString (emptyStreamMessage (exitCode.map toString))

/-- The finding for an empty stream is there unless the exit code has too many digits. -/
theorem emptyStreamFinding_cases (exitCode : Option Int) :
    (emptyStreamFinding exitCode = .ok (silentFinding exitCode) ∧
        ¬ ∃ code, exitCode = some code ∧ Unspellable code) ∨
      (emptyStreamFinding exitCode = .error .integerUnspellable ∧
        ∃ code, exitCode = some code ∧ Unspellable code) := by
  cases exitCode with
  | none => exact .inl ⟨rfl, by simp⟩
  | some code =>
    have hcode : (∃ c, some code = some c ∧ Unspellable c) ↔ Unspellable code := by simp
    rw [hcode, emptyStreamFinding, Option.mapM_some]
    rcases spellInteger_cases code with ⟨hshort, hspell⟩ | ⟨hlong, hspell⟩
    · exact .inl ⟨by rw [hspell]; rfl, hshort⟩
    · exact .inr ⟨by rw [hspell]; rfl, hlong⟩

theorem parseStderr_of_eq_nil {stderr : List UInt8} {exitCode : Option Int}
    (h : contentLines (Text.Utf8.decodeLossy stderr) = []) :
    parseStderr stderr exitCode = (emptyStreamFinding exitCode).map fun d => [d] := by
  rw [parseStderr, h]

/-- A stream without a line is read as the finding that stands for it. -/
theorem parseStderr_of_silent {stderr : List UInt8} {exitCode : Option Int}
    (h : contentLines (Text.Utf8.decodeLossy stderr) = [])
    (hcode : ¬ ∃ code, exitCode = some code ∧ Unspellable code) :
    parseStderr stderr exitCode = .ok [silentFinding exitCode] := by
  rcases emptyStreamFinding_cases exitCode with ⟨hread, -⟩ | ⟨-, hlong⟩
  · rw [parseStderr_of_eq_nil h, hread]
    rfl
  · exact absurd hlong hcode

/-- How an error stream is read: it has findings, or it is beyond the limits of its readers. -/
theorem parseStderr_cases (stderr : List UInt8) (exitCode : Option Int) :
    (∃ found, parseStderr stderr exitCode = .ok found ∧ ¬ Beyond stderr exitCode) ∨
      (∃ f, parseStderr stderr exitCode = .error f ∧ f.IsLimit ∧ Beyond stderr exitCode) := by
  rw [parseStderr, Beyond]
  split
  next hnone =>
    simp only [hnone, List.not_mem_nil, false_and, exists_false, false_or, true_and]
    rcases emptyStreamFinding_cases exitCode with ⟨hd, hshort⟩ | ⟨hd, hlong⟩
    · exact .inl ⟨_, by rw [hd]; rfl, hshort⟩
    · exact .inr ⟨_, by rw [hd]; rfl, .inr (.inr rfl), hlong⟩
  next hsome =>
    -- the stream fails as the first of its lines that cannot be read
    rcases mapM_cases lineFinding (contentLines (Text.Utf8.decodeLossy stderr)) with
      ⟨found, hfound, hall⟩ | ⟨f, hf, line, hline, hlf⟩
    · refine .inl ⟨found, hfound, ?_⟩
      rintro (⟨line, hline, hlong⟩ | ⟨hnone, _⟩)
      · obtain ⟨d, hd⟩ := hall line hline
        rcases lineFinding_cases line with ⟨_, _, hshort⟩ | ⟨digits, herror, _⟩
        · exact hshort hlong
        · rw [hd] at herror
          exact absurd herror (by simp)
      · exact hsome hnone
    · rcases lineFinding_cases line with ⟨d, hd, _⟩ | ⟨digits, herror, hlong⟩
      · rw [hd] at hlf
        exact absurd hlf (by simp)
      · obtain rfl : f = .integerTooLong digits := by simpa [hlf] using herror
        exact .inr ⟨_, hf, .inr (.inl ⟨digits, rfl⟩), .inl ⟨line, hline, hlong⟩⟩

/-- A text without blanks is one line, with nothing to strip from it. -/
theorem contentLines_of_solid {text : List Char} (hne : text ≠ [])
    (h : ∀ c ∈ text, Text.isBlank c = false) : contentLines text = [text] := by
  have hunbroken : ∀ c ∈ text, Text.isLineBreak c = false := fun c hc =>
    Bool.eq_false_iff.mpr fun hbreak =>
      Bool.eq_false_iff.mp (h c hc) (Text.isBlank_of_isLineBreak hbreak)
  rw [contentLines, Text.bareLines_of_unbroken hne hunbroken, List.map_singleton, Text.strip,
    Text.trimBoth_eq_self h]
  simp [hne]

theorem digit_ofNat : ∀ d < 10, Text.isDigit (Char.ofNat (48 + d)) = true ∧
    Text.isAsciiDigit (Char.ofNat (48 + d)) = true := by
  decide

/-- The characters of ASCII digits are digits. -/
theorem digit_of_byte {b : UInt8} (h : 48 ≤ b.toNat ∧ b.toNat ≤ 57) :
    Text.isDigit (Char.ofNat b.toNat) = true ∧ Text.isAsciiDigit (Char.ofNat b.toNat) = true := by
  have hdigit := digit_ofNat (b.toNat - 48) (by omega)
  rwa [Nat.add_sub_cancel' h.1] at hdigit

/-- An empty stream is beyond the limits as soon as the exit code is. -/
theorem beyond_of_code {code : Int} (h : Unspellable code) : Beyond [] (some code) := by
  refine .inr ⟨?_, code, rfl, h⟩
  rw [Text.Utf8.decodeLossy_ascii (by simp)]
  rfl

/-- A stream that is nothing but a position is beyond the limits as soon as its first number is. -/
theorem beyond_of_digits {digits : List UInt8} (exitCode : Option Int)
    (h : ∀ b ∈ digits, 48 ≤ b.toNat ∧ b.toNat ≤ 57) (hlong : Number.digitLimit < digits.length) :
    Beyond (digits ++ [58, 49, 58, 120]) exitCode := by
  have hascii : ∀ b ∈ digits ++ [58, 49, 58, 120], b < 0x80 :=
    List.forall_mem_append.mpr
      ⟨fun b hb => UInt8.lt_iff_toNat_lt.mpr (Nat.lt_of_le_of_lt (h b hb).2 (by decide)),
        by simp⟩
  have htext := Text.Utf8.decodeLossy_ascii hascii
  rw [List.map_append] at htext
  have hdigits : ∀ c ∈ digits.map fun b => Char.ofNat b.toNat, Text.isDigit c = true := by
    intro c hc
    obtain ⟨b, hb, rfl⟩ := List.mem_map.mp hc
    exact (digit_of_byte (h b hb)).1
  have hlength : (digits.map fun b => Char.ofNat b.toNat).length = digits.length := List.length_map _
  -- from here on, the digits of the stream are any long run of them
  generalize digits.map (fun b => Char.ofNat b.toNat) = run at htext hdigits hlength
  have hne : run ≠ [] := List.ne_nil_of_length_pos (by omega)
  have hsolid : ∀ c ∈ run ++ [':', '1', ':', 'x'], Text.isBlank c = false :=
    List.forall_mem_append.mpr
      ⟨fun c hc => Text.isBlank_of_isDigit (hdigits c hc), by simp [Text.isBlank]⟩
  have hfind : findPosition? (run ++ ':' :: (['1'] ++ ':' :: 'x' :: [])) = some (run, ['1'], ['x']) :=
    findPosition?_append hne hdigits (by simp) (List.forall_mem_singleton.mpr (by decide))
  refine .inl ⟨run ++ [':', '1', ':', 'x'], ?_, run, ['1'], ['x'], hfind, Or.inl (by omega)⟩
  rw [htext]
  show _ ∈ contentLines (run ++ [':', '1', ':', 'x'])
  rw [contentLines_of_solid (by simp) hsolid]
  exact List.mem_singleton_self _

/-! ### The output stream -/

/-- On the way to the end of the value on an output stream, an integer is too long or a block too
deep. -/
def Overlimit (depth : Nat) (stdout : List UInt8) : Prop :=
  ∃ fault, Json.Exceeds Number.digitLimit .value depth
    (Json.skipBlanks (Text.strip (Text.Utf8.decodeLossy stdout))) fault

theorem overlimit_iff {depth : Nat} {stdout : List UInt8} :
    Overlimit depth stdout ↔ ∃ fault, fault ≠ Json.Fault.malformed ∧
      Json.parse (some Number.digitLimit) (Text.strip (Text.Utf8.decodeLossy stdout)) depth =
        .error fault := by
  constructor
  · rintro ⟨fault, h⟩
    exact ⟨fault, h.ne_malformed, (Json.parse_fault_iff (by decide) h.ne_malformed).mpr h⟩
  · rintro ⟨fault, hfault, h⟩
    exact ⟨fault, (Json.parse_fault_iff (by decide) hfault).mp h⟩

/-- A run of digits is an integer that is too long as soon as there are too many of them. -/
theorem overlong_of_digits {limit : Nat} {digits : List Char}
    (h : ∀ c ∈ digits, Text.isAsciiDigit c = true) (hlong : limit < digits.length + 1) :
    Json.Overlong limit (digits.length + 1) ('1' :: digits) := by
  refine ⟨[], by simp, '1' :: digits, [], by simp, List.forall_mem_cons.mpr ⟨by decide, h⟩,
    by simp, ?_, rfl, hlong⟩
  simp [Json.Continues, Json.StartsFraction, Json.StartsPower, Json.StartsDigit]

/-- A stream that is one integer is beyond the limits as soon as it has too many digits. -/
theorem overlimit_of_digits {digits : List UInt8} (depth : Nat)
    (h : ∀ b ∈ digits, 48 ≤ b.toNat ∧ b.toNat ≤ 57)
    (hlong : Number.digitLimit < digits.length + 1) : Overlimit depth (49 :: digits) := by
  have hascii : ∀ b ∈ 49 :: digits, b < 0x80 := List.forall_mem_cons.mpr
    ⟨by decide, fun b hb => UInt8.lt_iff_toNat_lt.mpr (Nat.lt_of_le_of_lt (h b hb).2 (by decide))⟩
  have hdigits : ∀ c ∈ digits.map fun b => Char.ofNat b.toNat,
      Text.isDigit c = true ∧ Text.isAsciiDigit c = true := by
    intro c hc
    obtain ⟨b, hb, rfl⟩ := List.mem_map.mp hc
    exact digit_of_byte (h b hb)
  have hsolid : ∀ c ∈ '1' :: digits.map fun b => Char.ofNat b.toNat, Text.isBlank c = false :=
    List.forall_mem_cons.mpr ⟨by decide, fun c hc => Text.isBlank_of_isDigit (hdigits c hc).1⟩
  refine ⟨.integerTooLong ((digits.map fun b => Char.ofNat b.toNat).length + 1), ?_⟩
  rw [Text.Utf8.decodeLossy_ascii hascii, List.map_cons, Text.strip]
  show Json.Exceeds _ _ _ (Json.skipBlanks (Text.trimBoth _ ('1' :: _))) _
  rw [Text.trimBoth_eq_self hsolid]
  exact .long (overlong_of_digits (fun c hc => (hdigits c hc).2) (by rwa [List.length_map]))

/-- An output stream is read to the end and holds no payload: it is blank, no JSON, or JSON of another
shape. -/
def NoPayload (depth : Nat) (stdout : List UInt8) : Prop :=
  payloadOf stdout depth = .ok none ∨ ∃ problems, payloadOf stdout depth = .error (.protocol problems)

theorem parse_nil (limit : Option Nat) (depth : Nat) : Json.parse limit [] depth = .error .malformed :=
  rfl

/-- An output stream holds a payload, or none, or is beyond the limits of the reader. -/
theorem payloadOf_cases (depth : Nat) (stdout : List UInt8) :
    (∃ p, payloadOf stdout depth = .ok (some p) ∧ ¬ Overlimit depth stdout) ∨
      (NoPayload depth stdout ∧ ¬ Overlimit depth stdout) ∨
      (Overlimit depth stdout ∧ (payloadOf stdout depth = .error .tooDeep ∨
        ∃ digits, payloadOf stdout depth = .error (.integerTooLong digits))) := by
  rw [NoPayload, overlimit_iff, payloadOf]
  generalize Text.strip (Text.Utf8.decodeLossy stdout) = text
  -- blank output is not parsed, and parsing it would be no limit failure either
  cases text with
  | nil => simp [parse_nil]
  | cons c rest =>
    simp only [List.isEmpty_cons, Bool.false_eq_true, if_false]
    cases Json.parse (some Number.digitLimit) (c :: rest) depth with
    | error fault => cases fault <;> simp
    | ok v => cases hread : Schema.readPayload v <;> simp [hread]

/-! ### The policy -/

/-- Nobody can say what a run came to: it completed, and what it left behind is beyond the limits of the
readers. -/
def Overtaxing (depth : Nat) (raw : RawOutput) : Prop :=
  raw.timedOut = false ∧ raw.cancelled = false ∧
    (raw.exitCode = some 0 ∧ Overlimit depth raw.stdout ∨
      raw.exitCode ≠ some 0 ∧ Beyond raw.stderr raw.exitCode)

/-- A run has an outcome, or is beyond the limits of the readers. -/
theorem translate_cases (strict : Bool) (depth : Nat) (raw : RawOutput) :
    (∃ o, (translate strict raw depth).result = .ok o ∧ ¬ Overtaxing depth raw) ∨
      ∃ f, (translate strict raw depth).result = .error f ∧ f.IsLimit ∧ Overtaxing depth raw := by
  rw [translate, Overtaxing]
  cases ht : raw.timedOut with
  | true => simp
  | false =>
    cases hc : raw.cancelled with
    | true => simp
    | false =>
      simp only [Bool.false_eq_true, if_false, true_and]
      -- the exit code decides which of the two streams is read
      by_cases hx : raw.exitCode = some 0
      · simp only [hx, if_true, true_and, ne_eq, not_true_eq_false, false_and, or_false,
          translateSuccess]
        rcases payloadOf_cases depth raw.stdout with
          ⟨p, hp, h⟩ | ⟨hp | ⟨n, hp⟩, h⟩ | ⟨h, hp | ⟨n, hp⟩⟩ <;>
          simp [hp, h, Failure.IsLimit]
      · simp only [hx, if_false, false_and, false_or, ne_eq, not_false_eq_true, true_and]
        rcases parseStderr_cases raw.stderr raw.exitCode with ⟨found, hf, h⟩ | ⟨f, hf, hlimit, h⟩
        · exact .inl ⟨_, by rw [hf]; rfl, h⟩
        · exact .inr ⟨f, by rw [hf]; rfl, hlimit, h⟩

/-- The outcome of a run that can be read. -/
inductive Reads (strict : Bool) (depth : Nat) (raw : RawOutput) : Outcome → Prop where
  | timedOut (ht : raw.timedOut = true) :
      Reads strict depth raw (incomplete timeoutMessage .timeout
        "analyzer exceeded its deadline and was terminated")
  | cancelled (ht : raw.timedOut = false) (hc : raw.cancelled = true) :
      Reads strict depth raw (incomplete cancelledMessage .cancelled "superseded by a newer request")
  | payload (ht : raw.timedOut = false) (hc : raw.cancelled = false) (hx : raw.exitCode = some 0)
      {p : Schema.Payload} (hp : payloadOf raw.stdout depth = .ok (some p)) :
      Reads strict depth raw (outcomeOf p)
  | noPayload (ht : raw.timedOut = false) (hc : raw.cancelled = false) (hx : raw.exitCode = some 0)
      (hp : NoPayload depth raw.stdout) :
      Reads strict depth raw (unreadable strict)
  | findings (ht : raw.timedOut = false) (hc : raw.cancelled = false) (hx : raw.exitCode ≠ some 0)
      {found : List Descriptor} (hf : parseStderr raw.stderr raw.exitCode = .ok found) :
      Reads strict depth raw (Outcome.ofFindings .analyzer found)

theorem reads_of_translate {strict : Bool} {depth : Nat} {raw : RawOutput} {o : Outcome}
    (h : (translate strict raw depth).result = .ok o) : Reads strict depth raw o := by
  rw [translate] at h
  cases ht : raw.timedOut with
  | true =>
    obtain rfl := by simpa [ht] using h
    exact .timedOut ht
  | false =>
    cases hc : raw.cancelled with
    | true =>
      obtain rfl := by simpa [ht, hc] using h
      exact .cancelled ht hc
    | false =>
      simp only [ht, hc, Bool.false_eq_true, if_false] at h
      by_cases hx : raw.exitCode = some 0
      · rw [if_pos hx, translateSuccess] at h
        rcases payloadOf_cases depth raw.stdout with
          ⟨p, hp, _⟩ | ⟨hp, _⟩ | ⟨_, hp | ⟨digits, hp⟩⟩
        · obtain rfl := by simpa [hp] using h
          exact .payload ht hc hx hp
        · obtain rfl : o = unreadable strict := by
            rcases hp with hp | ⟨problems, hp⟩ <;> simpa [hp, eq_comm] using h
          exact .noPayload ht hc hx hp
        · simp [hp] at h
        · simp [hp] at h
      · rw [if_neg hx] at h
        cases hf : parseStderr raw.stderr raw.exitCode with
        | error f => simp [hf, Except.map] at h
        | ok found =>
          obtain rfl := by simpa [hf, Except.map] using h
          exact .findings ht hc hx hf

end Transcript

end AnalyzerBridge
