/-
The grammar of the error stream.

A line of the stream is positioned if digits, a colon, digits, a colon and one more
character stand anywhere in it; the leftmost place where they do counts.

* `positionAt?_eq_some_iff`, `findPosition?_eq_some_iff` — the reader finds the leftmost
  position of a line, if there is one;
* `describes_of_lineFinding` — hence the finding on a line is the one that the grammar
  calls for;
* `lineFinding_text` — the line of a remark is read back as the remark, whatever its
  message looks like;
* `parseStderr_reads` — both for whole streams: one finding a line, and remarks that were
  written line by line come back.

Design notes: the first number of a position is never cut short on the left, because a
digit in front of it would start a position of its own (`Leftmost.maximal`).
-/
import AnalyzerBridge.Proofs.Numeral
import AnalyzerBridge.Proofs.Strip
import AnalyzerBridge.Proofs.Transcript
import AnalyzerBridge.Proofs.Utf8
import Mathlib.Data.List.Forall2

namespace AnalyzerBridge.Transcript

/-! ### Positions -/

/-- The text is a position: digits, a colon, digits, a colon and a message. -/
structure IsPosition (text line column message : List Char) : Prop where
  text_eq : text = line ++ ':' :: (column ++ ':' :: message)
  line_ne : line ≠ []
  line_digits : ∀ c ∈ line, Text.isDigit c = true
  column_ne : column ≠ []
  column_digits : ∀ c ∈ column, Text.isDigit c = true
  message_ne : message ≠ []

/-- A position stands at a place of the text, and at none before it. -/
structure Leftmost (text : List Char) (start : Nat) (line column message : List Char) : Prop where
  here : IsPosition (text.drop start) line column message
  first : ∀ earlier < start, ∀ l c m, ¬ IsPosition (text.drop earlier) l c m

section Grammar

variable {text line column message : List Char}

theorem positionAt?_text (h : positionAt? text = some (line, column, message)) :
    text = line ++ ':' :: (column ++ ':' :: message) ∧ message ≠ [] := by
  simp only [positionAt?] at h
  split at h
  next rest _ hrest =>
    split at h
    next c message' _ hmessage =>
      obtain ⟨rfl, rfl, rfl⟩ := by simpa using h
      refine ⟨?_, List.cons_ne_nil _ _⟩
      -- each run is the digits in front, and what is left begins with the colon
      rw [← hmessage, List.takeWhile_append_dropWhile, ← hrest, List.takeWhile_append_dropWhile]
    next => exact absurd h (by simp)
  next => exact absurd h (by simp)

/-- A position is read exactly where one stands. -/
theorem positionAt?_eq_some_iff :
    positionAt? text = some (line, column, message) ↔ IsPosition text line column message := by
  constructor
  · intro h
    obtain ⟨htext, hmessage⟩ := positionAt?_text h
    obtain ⟨⟨hline, hl⟩, hcolumn, hc⟩ := positionAt?_digits h
    exact ⟨htext, hline, hl, hcolumn, hc, hmessage⟩
  · rintro ⟨rfl, hline, hl, hcolumn, hc, hmessage⟩
    obtain ⟨c, rest, rfl⟩ := List.exists_cons_of_ne_nil hmessage
    exact positionAt?_append hline hl hcolumn hc

theorem not_isPosition_nil : ¬ IsPosition [] line column message := fun h => by
  have hlength := congrArg List.length h.text_eq
  simp only [List.length_append, List.length_cons, List.length_nil] at hlength
  omega

/-- A line has no position, or the one that stands leftmost is found. -/
theorem findPosition?_cases (text : List Char) :
    (findPosition? text = none ∧ ∀ start l c m, ¬ IsPosition (text.drop start) l c m) ∨
      ∃ start line column message, findPosition? text = some (line, column, message) ∧
        Leftmost text start line column message := by
  induction text with
  | nil => exact Or.inl ⟨rfl, fun start l c m => by rw [List.drop_nil]; exact not_isPosition_nil⟩
  | cons c rest ih =>
    rw [findPosition?]
    cases hhere : positionAt? (c :: rest) with
    | some found =>
      obtain ⟨line, column, message⟩ := found
      exact Or.inr ⟨0, line, column, message, rfl, positionAt?_eq_some_iff.mp hhere,
        fun earlier h => absurd h (Nat.not_lt_zero _)⟩
    | none =>
      have hnone : ∀ l c' m, ¬ IsPosition (c :: rest) l c' m := fun l c' m h => by
        rw [positionAt?_eq_some_iff.mpr h] at hhere
        exact absurd hhere (by simp)
      -- no position begins with the first character, so all of them lie in the rest
      rcases ih with ⟨hfind, hno⟩ | ⟨start, line, column, message, hfind, hleft⟩
      · refine Or.inl ⟨hfind, fun start => ?_⟩
        cases start with
        | zero => exact hnone
        | succ start => exact hno start
      · refine Or.inr ⟨start + 1, line, column, message, hfind, hleft.here, fun earlier h => ?_⟩
        cases earlier with
        | zero => exact hnone
        | succ earlier => exact hleft.first earlier (Nat.lt_of_succ_lt_succ h)

/-- The first number of the leftmost position has no digit in front of it. -/
theorem Leftmost.maximal {start : Nat} {d : Char} (h : Leftmost text (start + 1) line column message)
    (hd : text[start]? = some d) : Text.isDigit d = false := by
  rw [Bool.eq_false_iff]
  intro hdigit
  obtain ⟨hlt, rfl⟩ := List.getElem?_eq_some_iff.mp hd
  obtain ⟨htext, -, hl, hcolumn, hc, hmessage⟩ := h.here
  refine h.first start (Nat.lt_succ_self _) (text[start] :: line) column message
    ⟨?_, List.cons_ne_nil _ _, List.forall_mem_cons.mpr ⟨hdigit, hl⟩, hcolumn, hc, hmessage⟩
  rw [List.drop_eq_getElem_cons hlt, htext, List.cons_append]

/-! ### Findings -/

/-- The number that a run of digits spells, counted from zero; zero stays zero. -/
def countedFromZero (digits : List Char) : Int :=
  max 0 ((Text.ofDigits 10 (Number.values digits) : Int) - 1)

/-- What the grammar calls for on a stripped line: the numbers and the message of its leftmost position, the
first number not cut short, or the line itself if there is no position. -/
inductive Describes (text : List Char) : Descriptor → Prop where
  | positioned {start : Nat} {line column message : List Char}
      (hleft : Leftmost text start line column message)
      (hmaximal : ∀ k d, start = k + 1 → text[k]? = some d → Text.isDigit d = false)
      (hmessage : Text.strip message ≠ []) :
      Describes text
        { message := (Text.strip message).map .char
          line := some (countedFromZero line)
          column := some (countedFromZero column) }
  | plain (hnone : ∀ start l c m, ¬ IsPosition (text.drop start) l c m) :
      Describes text { message := text.map .char }

/-- No run of digits in the text is too long to be read. -/
def ShortRuns (text : List Char) : Prop :=
  ∀ run, run <:+: text → (∀ c ∈ run, Text.isDigit c = true) → run.length ≤ Number.digitLimit

theorem ShortRuns.of_infix {part : List Char} (h : ShortRuns text) (hpart : part <:+: text) :
    ShortRuns part :=
  fun run hrun => h run (hrun.trans hpart)

theorem zeroBased_of_short {digits : List Char} (hne : digits ≠ [])
    (h : ∀ c ∈ digits, Text.isDigit c = true) (hshort : digits.length ≤ Number.digitLimit) :
    zeroBased digits = .ok (countedFromZero digits) := by
  rw [zeroBased_of_digits hne h, if_neg (Nat.not_lt.mpr hshort), countedFromZero]

/-- The runs of a position are pieces of the text, and the message ends where the text does. -/
theorem IsPosition.pieces (h : IsPosition text line column message) :
    line <:+: text ∧ column <:+: text ∧ message <:+ text := by
  have hmessage : message <:+ text :=
    ⟨line ++ ':' :: (column ++ [':']), by rw [h.text_eq]; simp⟩
  refine ⟨⟨[], ':' :: (column ++ ':' :: message), by rw [h.text_eq, List.nil_append]⟩,
    ⟨line ++ [':'], ':' :: message, by rw [h.text_eq]; simp⟩, hmessage⟩

/-- The message of the position in a line that does not end in a blank is not blank. -/
theorem Leftmost.strip_message_ne {start : Nat} (h : Leftmost text start line column message)
    (hlast : ∀ c, text.getLast? = some c → Text.isBlank c = false) : Text.strip message ≠ [] := by
  obtain ⟨front, htext⟩ := h.here.pieces.2.2.trans (List.drop_suffix start text)
  -- the message ends where the line does
  obtain ⟨c, hc⟩ : ∃ c, message.getLast? = some c :=
    ⟨_, List.getLast?_eq_some_getLast h.here.message_ne⟩
  refine Text.strip_ne_nil hc (hlast c ?_)
  rw [← htext, List.getLast?_append, hc, Option.some_or]

/-- A line without overlong numbers that does not end in a blank has the finding that the grammar calls
for. -/
theorem describes_of_lineFinding (hshort : ShortRuns text)
    (hlast : ∀ c, text.getLast? = some c → Text.isBlank c = false) :
    ∃ d, lineFinding text = .ok d ∧ Describes text d := by
  rcases findPosition?_cases text with ⟨hfind, hnone⟩ | ⟨start, line, column, message, hfind, hleft⟩
  · exact ⟨_, by rw [lineFinding, hfind], .plain hnone⟩
  · have hwithin : text.drop start <:+ text := List.drop_suffix start text
    obtain ⟨hline, hcolumn, -⟩ := hleft.here.pieces
    have hl := zeroBased_of_short hleft.here.line_ne hleft.here.line_digits
      (hshort line (hline.trans hwithin.isInfix) hleft.here.line_digits)
    have hc := zeroBased_of_short hleft.here.column_ne hleft.here.column_digits
      (hshort column (hcolumn.trans hwithin.isInfix) hleft.here.column_digits)
    refine ⟨_, by simp only [lineFinding, hfind, hl, hc],
      .positioned hleft ?_ (hleft.strip_message_ne hlast)⟩
    rintro k d rfl hd
    exact hleft.maximal hd

/-! ### Lines of the stream -/

/-- A line of the stream is a piece of it that does not end in a blank. -/
theorem of_mem_contentLines {content : List Char} (h : line ∈ contentLines content) :
    line <:+: content ∧ line ≠ [] ∧ ∀ c, line.getLast? = some c → Text.isBlank c = false := by
  obtain ⟨hmem, hne⟩ := List.mem_filter.mp h
  obtain ⟨bare, hbare, rfl⟩ := List.mem_map.mp hmem
  exact ⟨(Text.strip_infix bare).trans (Text.infix_of_mem_bareLines hbare), by simpa using hne,
    fun c => Text.isBlank_getLast_strip⟩

/-- Items that can all be read are read one by one. -/
theorem forall₂_mapM {α β : Type} {g : α → Except Failure β} {R : α → β → Prop} {xs : List α}
    (h : ∀ x ∈ xs, ∃ y, g x = .ok y ∧ R x y) : ∃ ys, xs.mapM g = .ok ys ∧ List.Forall₂ R xs ys := by
  induction xs with
  | nil => exact ⟨[], rfl, .nil⟩
  | cons x xs ih =>
    obtain ⟨⟨y, hy, hxy⟩, hrest⟩ := List.forall_mem_cons.mp h
    obtain ⟨ys, hys, hall⟩ := ih hrest
    exact ⟨y :: ys, by rw [List.mapM_cons, hy, hys]; rfl, .cons hxy hall⟩

end Grammar

/-! ### Remarks -/

/-- A remark on a place, which counts from zero. -/
structure Remark where
  line : Nat
  column : Nat
  message : String

namespace Remark

variable (r : Remark)

/-- The remark as a line of the stream, which counts from one. -/
def text : String :=
  toString (r.line + 1) ++ ":" ++ toString (r.column + 1) ++ ": " ++ r.message

/-- The finding that the remark is. -/
def finding : Descriptor where
  message := LooseText.ofString r.message
  line := some r.line
  column := some r.column

/-- The remark can be written on one line: its message is not empty, has no blanks around it and no line
breaks in it, and its numbers are not too long to be read. -/
structure Writable : Prop where
  message_ne : r.message ≠ ""
  stripped : Text.stripString r.message = r.message
  unbroken : ∀ c ∈ r.message.toList, Text.isLineBreak c = false
  line_short : (Nat.toDigits 10 (r.line + 1)).length ≤ Number.digitLimit
  column_short : (Nat.toDigits 10 (r.column + 1)).length ≤ Number.digitLimit

theorem text_toList : r.text.toList =
    Nat.toDigits 10 (r.line + 1) ++ ':' :: (Nat.toDigits 10 (r.column + 1) ++ ':' :: ' ' ::
      r.message.toList) := by
  simp [text]

end Remark

/-- Remarks as an error stream, one a line. -/
def written (remarks : List Remark) : List UInt8 :=
  Text.Utf8.encodeString ("\n".intercalate (remarks.map Remark.text))

theorem countedFromZero_toDigits (n : Nat) :
    countedFromZero (Nat.toDigits 10 (n + 1)) = n := by
  rw [countedFromZero, Number.values, Text.ofDigits_toDigits]
  omega

namespace Remark

variable {r : Remark} (h : r.Writable)

include h

theorem Writable.strip_message : Text.strip r.message.toList = r.message.toList := by
  have hstrip := congrArg String.toList h.stripped
  rwa [Text.stripString, String.toList_ofList] at hstrip

theorem Writable.message_toList_ne : r.message.toList ≠ [] := fun hnil =>
  h.message_ne (String.toList_eq_nil_iff.mp hnil)

/-- The line of a remark has nothing to strip and nothing that breaks it. -/
theorem Writable.solid : Text.strip r.text.toList = r.text.toList ∧ r.text.toList ≠ [] ∧
    ∀ c ∈ r.text.toList, Text.isLineBreak c = false := by
  obtain ⟨d, digits, hdigits⟩ :=
    List.exists_cons_of_ne_nil (Nat.toDigits_ne_nil (n := r.line + 1) (b := 10))
  have hd : Text.isDigit d = true := Text.isDigit_of_mem_toDigits (n := r.line + 1) (by rw [hdigits]; simp)
  have hsmooth : ∀ c, Text.isDigit c = true → Text.isLineBreak c = false := fun c hc =>
    Bool.eq_false_iff.mpr fun hbreak =>
      Bool.eq_false_iff.mp (Text.isBlank_of_isDigit hc) (Text.isBlank_of_isLineBreak hbreak)
  refine ⟨Text.strip_of_ends (fun c hc => ?_) (fun c hc => ?_), ?_, fun c hc => ?_⟩
  · rw [text_toList, hdigits] at hc
    obtain rfl := Option.some_inj.mp hc
    exact Text.isBlank_of_isDigit hd
  · -- the line ends as its message does, and that has been stripped
    rw [text_toList, List.getLast?_append, List.getLast?_cons, List.getLast?_append,
      List.getLast?_cons, List.getLast?_cons] at hc
    obtain ⟨e, he⟩ : ∃ e, r.message.toList.getLast? = some e :=
      Option.ne_none_iff_exists'.mp (List.getLast?_eq_none_iff.not.mpr h.message_toList_ne)
    obtain rfl : e = c := by simpa [he] using hc
    rw [← h.strip_message] at he
    exact Text.isBlank_getLast_strip he
  · rw [text_toList, hdigits, List.cons_append]
    exact List.cons_ne_nil _ _
  · rw [text_toList] at hc
    simp only [List.mem_append, List.mem_cons] at hc
    rcases hc with hc | rfl | hc | rfl | rfl | hc
    · exact hsmooth c (Text.isDigit_of_mem_toDigits hc)
    · decide
    · exact hsmooth c (Text.isDigit_of_mem_toDigits hc)
    · decide
    · decide
    · exact h.unbroken c hc

/-- The line of a remark is read back as the remark, whatever its message looks like. -/
theorem Writable.lineFinding_text : lineFinding r.text.toList = .ok r.finding := by
  have hfind : findPosition? r.text.toList = some (Nat.toDigits 10 (r.line + 1),
      Nat.toDigits 10 (r.column + 1), ' ' :: r.message.toList) := by
    rw [text_toList]
    exact findPosition?_append Nat.toDigits_ne_nil (fun _ => Text.isDigit_of_mem_toDigits)
      Nat.toDigits_ne_nil (fun _ => Text.isDigit_of_mem_toDigits)
  have hline := zeroBased_of_short Nat.toDigits_ne_nil
    (fun _ => Text.isDigit_of_mem_toDigits (n := r.line + 1)) h.line_short
  have hcolumn := zeroBased_of_short Nat.toDigits_ne_nil
    (fun _ => Text.isDigit_of_mem_toDigits (n := r.column + 1)) h.column_short
  simp only [lineFinding, hfind, hline, hcolumn, countedFromZero_toDigits, Remark.finding,
    LooseText.ofString, Text.strip_cons_of_isBlank (show Text.isBlank ' ' = true by decide),
    h.strip_message]

end Remark

theorem contentLines_written {remarks : List Remark} (h : ∀ r ∈ remarks, r.Writable) :
    contentLines (Text.Utf8.decodeLossy (written remarks)) =
      remarks.map fun r => r.text.toList := by
  have hsolid : ∀ line ∈ remarks.map fun r => r.text.toList, Text.strip line = line ∧ line ≠ [] ∧
      ∀ c ∈ line, Text.isLineBreak c = false := by
    intro line hline
    obtain ⟨r, hr, rfl⟩ := List.mem_map.mp hline
    exact (h r hr).solid
  have hnewline : "\n".toList = ['\n'] := rfl
  have hjoined : ("\n".intercalate (remarks.map Remark.text)).toList =
      ['\n'].intercalate (remarks.map fun r => r.text.toList) := by
    rw [String.toList_intercalate, List.map_map, hnewline]
    rfl
  rw [written, Text.Utf8.encodeString, Text.Utf8.decodeLossy_encode, hjoined, contentLines,
    Text.bareLines_intercalate (fun line hl => (hsolid line hl).2.1)
      (fun line hl => (hsolid line hl).2.2)]
  generalize remarks.map (fun r => r.text.toList) = parts at hsolid
  have hstrip : parts.map Text.strip = parts := by
    conv_rhs => rw [← List.map_id parts]
    exact List.map_congr_left fun line hl => (hsolid line hl).1
  rw [hstrip]
  exact List.filter_eq_self.mpr fun line hl => by simpa using (hsolid line hl).2.1

theorem mapM_lineFinding {remarks : List Remark} (h : ∀ r ∈ remarks, r.Writable) :
    (remarks.map fun r => r.text.toList).mapM lineFinding = .ok (remarks.map Remark.finding) := by
  induction remarks with
  | nil => rfl
  | cons r remarks ih =>
    obtain ⟨hr, hrest⟩ := List.forall_mem_cons.mp h
    rw [List.map_cons, List.mapM_cons, hr.lineFinding_text, ih hrest]
    rfl

theorem parseStderr_of_ne_nil {stderr : List UInt8} {exitCode : Option Int}
    (h : contentLines (Text.Utf8.decodeLossy stderr) ≠ []) :
    parseStderr stderr exitCode =
      (contentLines (Text.Utf8.decodeLossy stderr)).mapM lineFinding := by
  rw [parseStderr]
  split
  next hnone => exact absurd hnone h
  next => rfl

/-- An error stream without overlong numbers is read line by line as the grammar says, or as the one
finding that stands for it if it has no line, and remarks that were written line by line are read back. -/
theorem parseStderr_reads :
    (∀ (stderr : List UInt8) (exitCode : Option Int),
      ShortRuns (Text.Utf8.decodeLossy stderr) →
        (contentLines (Text.Utf8.decodeLossy stderr) ≠ [] →
          ∃ found, parseStderr stderr exitCode = .ok found ∧
            List.Forall₂ Describes (contentLines (Text.Utf8.decodeLossy stderr)) found) ∧
        (contentLines (Text.Utf8.decodeLossy stderr) = [] →
          (¬ ∃ code, exitCode = some code ∧ Unspellable code) →
            parseStderr stderr exitCode = .ok [silentFinding exitCode])) ∧
    (∀ (remarks : List Remark) (exitCode : Option Int), remarks ≠ [] →
      (∀ r ∈ remarks, r.Writable) →
        parseStderr (written remarks) exitCode = .ok (remarks.map Remark.finding)) := by
  constructor
  · intro stderr exitCode hshort
    refine ⟨fun hsome => ?_, parseStderr_of_silent⟩
    obtain ⟨found, hfound, hall⟩ := forall₂_mapM
      (fun line (hline : line ∈ contentLines (Text.Utf8.decodeLossy stderr)) => by
        obtain ⟨hpiece, -, hlast⟩ := of_mem_contentLines hline
        exact describes_of_lineFinding (hshort.of_infix hpiece) hlast)
    exact ⟨found, by rw [parseStderr_of_ne_nil hsome, hfound], hall⟩
  · intro remarks exitCode hne hwritable
    have hlines := contentLines_written hwritable
    have hsome : contentLines (Text.Utf8.decodeLossy (written remarks)) ≠ [] := by
      rw [hlines]
      exact fun hnil => hne (List.map_eq_nil_iff.mp hnil)
    rw [parseStderr_of_ne_nil hsome, hlines]
    exact mapM_lineFinding hwritable

/-- A text that is short itself has no overlong runs. -/
theorem shortRuns_of_length {text : List Char} (h : text.length ≤ Number.digitLimit) :
    ShortRuns text :=
  fun _ hrun _ => hrun.length_le.trans h

/-- A position in the message of a remark is not mistaken for the place of the remark. -/
theorem parseStderr_reads_nested :
    (∃ found, parseStderr (Text.Utf8.encodeString "in 3:7: a\n\n plain") none = .ok found ∧
      List.Forall₂ Describes ["in 3:7: a".toList, "plain".toList] found) ∧
    parseStderr (written [⟨2, 6, "see 12:1: above"⟩, ⟨0, 0, "more"⟩]) (some 1) =
      .ok [{ message := LooseText.ofString "see 12:1: above", line := some 2, column := some 6 },
        { message := LooseText.ofString "more", line := some 0, column := some 0 }] := by
  obtain ⟨hread, hback⟩ := parseStderr_reads
  constructor
  · have htext : Text.Utf8.decodeLossy (Text.Utf8.encodeString "in 3:7: a\n\n plain") =
        "in 3:7: a\n\n plain".toList := Text.Utf8.decodeLossy_encode _
    have hlines : contentLines "in 3:7: a\n\n plain".toList =
        ["in 3:7: a".toList, "plain".toList] := by decide
    obtain ⟨found, hfound, hall⟩ := (hread
      (Text.Utf8.encodeString "in 3:7: a\n\n plain") none
      (htext ▸ shortRuns_of_length (by decide))).1 (by rw [htext, hlines]; exact List.cons_ne_nil _ _)
    rw [htext, hlines] at hall
    exact ⟨found, hfound, hall⟩
  · refine hback _ (some 1) (List.cons_ne_nil _ _) fun r hr => ?_
    simp only [List.mem_cons, List.not_mem_nil, or_false] at hr
    rcases hr with rfl | rfl
    · exact ⟨by decide, by decide, by simp [Text.isLineBreak], by decide, by decide⟩
    · exact ⟨by decide, by decide, by simp [Text.isLineBreak], by decide, by decide⟩

end AnalyzerBridge.Transcript
