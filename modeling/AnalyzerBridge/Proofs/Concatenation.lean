/-
Error streams that are put together.

A stream that consists of two parts with a line feed between them is read as the parts
are, one after the other.

* `decodeLossy_append_ascii` — a stretch of bytes that is no character ends before an
  ASCII byte, so that the bytes on both sides of one are decoded apart;
* `filter_bareLines` — but for empty ones, the lines of a text are its pieces between
  line breaks, and so `contentLines_append` cuts a text at a line break;
* `length_contentLines`, `contentLines_eq_nil_iff` — there is one line to read for each
  that is not blank, and none only if the text is blank, since a terminator is blank too;
* `parseStderr_parts` — hence a stream is read part by part and line by line, and a
  finding on a text as a whole is never called for.

Design notes: the reader of the stream has no case for a text that is not blank and yet
has no line to read.  `parseStderrOr` has one, with any finding whatever, and is the
same function.
-/
import AnalyzerBridge.Proofs.ErrorStream

namespace AnalyzerBridge

/-! ### Bytes -/

namespace Text.Utf8

/-- The bytes after the first one of a character are not ASCII. -/
theorem lead?_range {b lo hi : UInt8} {need code : Nat} (h : lead? b = some (need, lo, hi, code)) :
    0x80 ≤ lo := by
  rw [lead?_eq] at h
  split_ifs at h
  all_goals
    obtain ⟨-, rfl, -, -⟩ := by simpa using h
    decide

/-- A character that is cut short is cut short by an ASCII byte, too, and one that is complete ends
before it. -/
theorem trail_append_ascii {x : UInt8} (hx : x < 0x80) (need : Nat) {lo : UInt8} (hlo : 0x80 ≤ lo)
    (hi : UInt8) (code width : Nat) (bytes rest : List UInt8) :
    (trail need lo hi code width (bytes ++ x :: rest)).1.toOption =
        (trail need lo hi code width bytes).1.toOption ∧
      (trail need lo hi code width (bytes ++ x :: rest)).2 = (trail need lo hi code width bytes).2 ∧
      (trail need lo hi code width bytes).2 ≤ width + bytes.length := by
  induction bytes generalizing need lo hi code width with
  | nil =>
    cases need with
    | zero => exact ⟨rfl, rfl, Nat.le_refl _⟩
    | succ need =>
      have hout : ¬ (lo ≤ x && x ≤ hi) = true := by
        rw [Bool.and_eq_true, decide_eq_true_eq, UInt8.le_iff_toNat_le]
        rw [UInt8.lt_iff_toNat_lt] at hx
        rw [UInt8.le_iff_toNat_le] at hlo
        omega
      have hcut : trail (need + 1) lo hi code width (x :: rest) = (.error .continuationByte, width) := by
        rw [trail, if_neg hout]
      rw [List.nil_append, hcut]
      exact ⟨rfl, rfl, Nat.le_refl _⟩
  | cons b bytes ih =>
    cases need with
    | zero => exact ⟨rfl, rfl, Nat.le_add_right _ _⟩
    | succ need =>
      rw [List.cons_append, trail, trail, List.length_cons]
      by_cases hb : (lo ≤ b && b ≤ hi) = true
      · rw [if_pos hb, if_pos hb]
        obtain ⟨hchar, hwidth, hle⟩ :=
          ih need (UInt8.le_refl 0x80) 0xBF (code * 64 + b.toNat % 64) (width + 1)
        exact ⟨hchar, hwidth, by omega⟩
      · rw [if_neg hb, if_neg hb]
        exact ⟨rfl, rfl, by omega⟩

theorem piece_append_ascii {x : UInt8} (hx : x < 0x80) (b : UInt8) (bytes rest : List UInt8) :
    (piece b (bytes ++ x :: rest)).1.toOption = (piece b bytes).1.toOption ∧
      (piece b (bytes ++ x :: rest)).2 = (piece b bytes).2 ∧
      (piece b bytes).2 ≤ 1 + bytes.length := by
  rw [piece, piece]
  cases hlead : lead? b with
  | none => exact ⟨rfl, rfl, Nat.le_add_right _ _⟩
  | some entry =>
    obtain ⟨need, lo, hi, code⟩ := entry
    exact trail_append_ascii hx need (lead?_range hlead) hi code 1 bytes rest

theorem decodeLossyFrom_cons (reversed : List Char) (b : UInt8) (rest : List UInt8) :
    decodeLossyFrom reversed (b :: rest) =
      decodeLossyFrom ((piece b rest).1.toOption.getD replacement :: reversed)
        (rest.drop ((piece b rest).2 - 1)) := by
  rw [decodeLossyFrom]
  rcases piece b rest with ⟨reason | c, width⟩
  · rfl
  · rfl

/-- What has been read already stays in front. -/
theorem decodeLossyFrom_eq (reversed : List Char) (bytes : List UInt8) :
    decodeLossyFrom reversed bytes = reversed.reverse ++ decodeLossy bytes := by
  generalize hn : bytes.length = n
  induction n using Nat.strongRecOn generalizing reversed bytes with
  | ind n ih =>
    cases bytes with
    | nil => rw [decodeLossy, decodeLossyFrom, decodeLossyFrom, List.reverse_nil, List.append_nil]
    | cons b rest =>
      have hshort : (rest.drop ((piece b rest).2 - 1)).length < n := by
        rw [← hn, List.length_drop, List.length_cons]
        omega
      rw [decodeLossy, decodeLossyFrom_cons, decodeLossyFrom_cons, ih _ hshort _ _ rfl,
        ih _ hshort [_] _ rfl, List.reverse_cons, List.append_assoc, List.reverse_singleton]

theorem decodeLossy_cons (b : UInt8) (rest : List UInt8) :
    decodeLossy (b :: rest) = (piece b rest).1.toOption.getD replacement ::
      decodeLossy (rest.drop ((piece b rest).2 - 1)) := by
  rw [decodeLossy, decodeLossyFrom_cons, decodeLossyFrom_eq, List.reverse_singleton,
    List.singleton_append]

/-- The bytes on both sides of an ASCII byte are decoded apart, even if those in front of it end in the
middle of a character. -/
theorem decodeLossy_append_ascii {x : UInt8} (hx : x < 0x80) (bytes rest : List UInt8) :
    decodeLossy (bytes ++ x :: rest) = decodeLossy bytes ++ Char.ofNat x.toNat :: decodeLossy rest := by
  generalize hn : bytes.length = n
  induction n using Nat.strongRecOn generalizing bytes with
  | ind n ih =>
    cases bytes with
    | nil =>
      have hnil : decodeLossy [] = [] := decodeLossy_encode []
      rw [List.nil_append, decodeLossy_cons, piece_ascii hx, hnil]
      rfl
    | cons b bytes =>
      obtain ⟨hchar, hwidth, hle⟩ := piece_append_ascii hx b bytes rest
      have hshort : (bytes.drop ((piece b bytes).2 - 1)).length < n := by
        rw [← hn, List.length_drop, List.length_cons]
        omega
      rw [List.cons_append, decodeLossy_cons, decodeLossy_cons, hchar, hwidth,
        List.drop_append_of_le_length (by omega), ih _ hshort _ rfl, List.cons_append]

end Text.Utf8

/-! ### Lines -/

namespace Text

/-- A line without its terminator. -/
def bare (line : List Char) : List Char :=
  line.filter fun c => !isLineBreak c

theorem bareLines_cons (c : Char) (rest : List Char) :
    bareLines (c :: rest) = (consLine c (lines rest)).map bare := rfl

theorem bare_cons (c : Char) (line : List Char) :
    bare (c :: line) = if isLineBreak c then bare line else c :: bare line := by
  rw [bare, List.filter_cons]
  cases isLineBreak c with
  | true => rfl
  | false => rfl

/-- The first line of a text is its first piece between line breaks, and the others are the other pieces
but for empty ones, which a carriage return before a line feed leaves behind. -/
theorem bareLines_eq_splitOnP (text : List Char) :
    (bareLines text).headD [] = (text.splitOnP isLineBreak).headD [] ∧
      (bareLines text).tail.filter (fun line => !line.isEmpty) =
        (text.splitOnP isLineBreak).tail.filter fun line => !line.isEmpty := by
  induction text with
  | nil => exact ⟨rfl, rfl⟩
  | cons c rest ih =>
    obtain ⟨piece, pieces, hpieces⟩ := List.exists_cons_of_ne_nil (rest.splitOnP_ne_nil isLineBreak)
    rw [bareLines_cons, List.splitOnP_cons_eq_if_modifyHead, hpieces]
    rw [bareLines, hpieces] at ih
    cases hlines : lines rest with
    | nil =>
      obtain rfl := lines_eq_nil_iff.mp hlines
      obtain ⟨rfl, rfl⟩ := List.cons.inj hpieces
      rw [consLine, List.map_singleton, bare_cons]
      cases isLineBreak c with
      | true => exact ⟨rfl, rfl⟩
      | false => exact ⟨rfl, rfl⟩
    | cons line more =>
      rw [hlines] at ih
      obtain ⟨hhead, htail⟩ := ih
      have hline : bare line = piece := hhead
      rw [consLine_cons]
      cases hc : isLineBreak c with
      | false =>
        rw [if_neg (by simp), if_neg (by simp), List.map_cons, bare_cons, if_neg (by simp [hc]), hline]
        exact ⟨rfl, htail⟩
      | true =>
        rw [if_pos rfl]
        by_cases hpair : c = '\r' ∧ line.head? = some '\n'
        · -- the line feed that follows is a line of its own between two breaks
          obtain ⟨rfl, hfeed⟩ := hpair
          obtain rfl : line = ['\n'] := eq_lineFeed_of_head? hlines hfeed
          obtain rfl : piece = [] := hline.symm
          rw [if_neg (by simp), List.map_cons, bare_cons, if_pos hc]
          exact ⟨rfl, htail⟩
        · have hopen : (true && !(c == '\r' && line.head? == some '\n')) = true := by
            rw [not_and_or] at hpair
            simpa using hpair
          rw [if_pos hopen, List.map_cons, List.map_cons, bare_cons, if_pos hc, hline]
          refine ⟨rfl, ?_⟩
          rw [List.tail_cons, List.tail_cons, List.filter_cons, List.filter_cons]
          have htail' : (more.map bare).filter (fun line => !line.isEmpty) =
              pieces.filter fun line => !line.isEmpty := htail
          rw [htail']

theorem filter_bareLines (text : List Char) :
    (bareLines text).filter (fun line => !line.isEmpty) =
      (text.splitOnP isLineBreak).filter fun line => !line.isEmpty := by
  -- a list without an element has an empty line for its first one, which counts for nothing
  have hsplit : ∀ ls : List (List Char), ls.filter (fun line => !line.isEmpty) =
      [ls.headD []].filter (fun line => !line.isEmpty) ++
        ls.tail.filter fun line => !line.isEmpty := by
    intro ls
    cases ls with
    | nil => rfl
    | cons line more => rw [← List.filter_append]; rfl
  obtain ⟨hhead, htail⟩ := bareLines_eq_splitOnP text
  rw [hsplit, hhead, htail, ← hsplit]

theorem any_bare (line : List Char) :
    (bare line).any (fun c => !isBlank c) = line.any fun c => !isBlank c := by
  rw [bare, List.any_filter]
  congr 1
  funext c
  cases hc : isLineBreak c with
  | false => rw [Bool.not_false, Bool.true_and]
  | true => rw [isBlank_of_isLineBreak hc, Bool.not_true, Bool.and_self]

theorem isEmpty_strip (text : List Char) : (strip text).isEmpty = !text.any fun c => !isBlank c := by
  rw [Bool.eq_iff_iff, List.isEmpty_iff, strip_eq_nil_iff, Bool.not_eq_true', Bool.eq_false_iff, ne_eq,
    List.any_eq_true]
  simp

end Text

namespace Transcript

open Text.Utf8 (decodeLossy)

/-- The pieces of a text between line breaks, stripped, without those that are blank. -/
theorem contentLines_eq (text : List Char) :
    contentLines text =
      ((text.splitOnP Text.isLineBreak).map Text.strip).filter fun line => !line.isEmpty := by
  -- an empty line is stripped to an empty one, so that it may be left out beforehand
  have hfirst : ∀ ls : List (List Char), (ls.map Text.strip).filter (fun line => !line.isEmpty) =
      ((ls.filter fun line => !line.isEmpty).map Text.strip).filter fun line => !line.isEmpty := by
    intro ls
    rw [List.filter_map, List.filter_map, List.filter_filter]
    refine congrArg (List.map Text.strip) (List.filter_congr fun line _ => ?_)
    cases line with
    | nil => rfl
    | cons c line => exact (Bool.and_true _).symm
  rw [contentLines, hfirst, Text.filter_bareLines, ← hfirst]

/-- A text is read apart on both sides of a line break. -/
theorem contentLines_append {c : Char} (hc : Text.isLineBreak c = true) (text more : List Char) :
    contentLines (text ++ c :: more) = contentLines text ++ contentLines more := by
  rw [contentLines_eq, List.splitOnP_append_cons text more hc, List.map_append, List.filter_append,
    ← contentLines_eq, ← contentLines_eq]

/-- There is one line to read for each line of the text with something on it. -/
theorem length_contentLines (text : List Char) :
    (contentLines text).length =
      (Text.lines text).countP fun line => line.any fun c => !Text.isBlank c := by
  rw [contentLines, ← List.countP_eq_length_filter, List.countP_map, Text.bareLines, List.countP_map]
  congr 1
  funext line
  exact (congrArg not (Text.isEmpty_strip _)).trans ((Bool.not_not _).trans (Text.any_bare line))

/-- A text without lines to read is blank. -/
theorem contentLines_eq_nil_iff {text : List Char} :
    contentLines text = [] ↔ Text.strip text = [] := by
  rw [← List.length_eq_zero_iff, length_contentLines, List.countP_eq_zero, Text.strip_eq_nil_iff]
  conv_rhs => rw [← Text.flatten_lines text]
  constructor
  · intro h c hc
    obtain ⟨line, hline, hcl⟩ := List.mem_flatten.mp hc
    have hall := h line hline
    rw [List.any_eq_true] at hall
    by_contra hblank
    exact hall ⟨c, hcl, by simpa using hblank⟩
  · intro h line hline hany
    obtain ⟨c, hc, hblank⟩ := List.any_eq_true.mp hany
    rw [h c (List.mem_flatten_of_mem hline hc)] at hblank
    exact absurd hblank (by decide)

/-! ### Streams -/

variable {stderr : List UInt8} {exitCode : Option Int}

/-- Every line that is read has its own finding. -/
theorem forall₂_of_mapM {α β : Type} {g : α → Except Failure β} {xs : List α} {ys : List β}
    (h : xs.mapM g = .ok ys) : List.Forall₂ (fun x y => g x = .ok y) xs ys := by
  rcases mapM_cases g xs with ⟨-, -, hall⟩ | ⟨f, hf, -⟩
  · obtain ⟨zs, hzs, hforall⟩ := forall₂_mapM (R := fun x y => g x = .ok y) fun x hx => by
      obtain ⟨y, hy⟩ := hall x hx
      exact ⟨y, hy, hy⟩
    obtain rfl := Except.ok.inj (hzs.symm.trans h)
    exact hforall
  · rw [hf] at h
    exact absurd h (by simp)

/-- The two parts of a stream with a line feed between them are read apart. -/
theorem contentLines_decodeLossy_append (before after : List UInt8) :
    contentLines (decodeLossy (before ++ 10 :: after)) =
      contentLines (decodeLossy before) ++ contentLines (decodeLossy after) := by
  rw [Text.Utf8.decodeLossy_append_ascii (by decide), contentLines_append (by decide)]

/-- The reader of an error stream with one more case: a text that is not blank, but has no line with a
finding on it, has the findings `whole` of its stripped text. -/
def parseStderrOr (whole : List Char → List Descriptor) (stderr : List UInt8) (exitCode : Option Int) :
    Except Failure (List Descriptor) := do
  let content := decodeLossy stderr
  let found ← (contentLines content).mapM lineFinding
  if !found.isEmpty then return found
  else if !(Text.strip content).isEmpty then return whole (Text.strip content)
  else (emptyStreamFinding exitCode).map fun d => [d]

/-- The additional case does not occur. -/
theorem parseStderrOr_eq (whole : List Char → List Descriptor) (stderr : List UInt8)
    (exitCode : Option Int) : parseStderrOr whole stderr exitCode = parseStderr stderr exitCode := by
  by_cases hnil : contentLines (decodeLossy stderr) = []
  · have hstrip : Text.strip (decodeLossy stderr) = [] := contentLines_eq_nil_iff.mp hnil
    rw [parseStderr_of_eq_nil hnil]
    simp only [parseStderrOr, hnil, hstrip]
    rfl
  · rw [parseStderr_of_ne_nil hnil, parseStderrOr]
    cases hread : (contentLines (decodeLossy stderr)).mapM lineFinding with
    | error f => rfl
    | ok found =>
      have hlength := (forall₂_of_mapM hread).length_eq
      have hfound : found ≠ [] := by
        rintro rfl
        exact hnil (List.length_eq_zero_iff.mp hlength)
      simp [hfound, bind, Except.bind, pure, Except.pure]

/-- A stream is read part by part and line by line: a part with a line on it adds what it is read as, and
a blank part adds nothing; without overlong numbers there is one finding for each line that is not blank,
or the one that stands for an empty stream; and a finding on the text as a whole is never called for. -/
theorem parseStderr_parts :
    (∀ (before after : List UInt8) (exitCode : Option Int),
      parseStderr (before ++ 10 :: after) exitCode =
        if contentLines (decodeLossy before) = [] then parseStderr after exitCode
        else if contentLines (decodeLossy after) = [] then parseStderr before exitCode
        else do return (← parseStderr before exitCode) ++ (← parseStderr after exitCode)) ∧
    (∀ (stderr : List UInt8) (exitCode : Option Int), ShortRuns (decodeLossy stderr) →
      (contentLines (decodeLossy stderr) ≠ [] →
        ∃ found, parseStderr stderr exitCode = .ok found ∧
          List.Forall₂ (fun line d => lineFinding line = .ok d) (contentLines (decodeLossy stderr))
            found ∧
          found.length = (Text.lines (decodeLossy stderr)).countP fun line =>
            line.any fun c => !Text.isBlank c) ∧
      (contentLines (decodeLossy stderr) = [] →
        (¬ ∃ code, exitCode = some code ∧ Unspellable code) →
          parseStderr stderr exitCode = .ok [silentFinding exitCode])) ∧
    (∀ (whole : List Char → List Descriptor) (stderr : List UInt8) (exitCode : Option Int),
      parseStderrOr whole stderr exitCode = parseStderr stderr exitCode) := by
  refine ⟨fun before after exitCode => ?_, fun stderr exitCode hshort => ?_, parseStderrOr_eq⟩
  · have happend := contentLines_decodeLossy_append before after
    split
    next hbefore =>
      rw [parseStderr, happend, hbefore, List.nil_append]
      rfl
    next hbefore =>
      split
      next hafter =>
        rw [parseStderr, happend, hafter, List.append_nil]
        rfl
      next hafter =>
        have hne : contentLines (decodeLossy (before ++ 10 :: after)) ≠ [] := by
          rw [happend]
          exact List.append_ne_nil_of_left_ne_nil hbefore _
        rw [parseStderr_of_ne_nil hne, parseStderr_of_ne_nil hbefore, parseStderr_of_ne_nil hafter,
          happend, List.mapM_append]
  · refine ⟨fun hne => ?_, parseStderr_of_silent⟩
    obtain ⟨found, hfound, -⟩ := forall₂_mapM
      (fun line (hline : line ∈ contentLines (decodeLossy stderr)) => by
        obtain ⟨hpiece, -, hlast⟩ := of_mem_contentLines hline
        exact describes_of_lineFinding (hshort.of_infix hpiece) hlast)
    have hall := forall₂_of_mapM hfound
    refine ⟨found, by rw [parseStderr_of_ne_nil hne, hfound], hall, ?_⟩
    rw [← hall.length_eq, length_contentLines]

/-- A character that a line feed cuts in two is two ill-formed stretches, one in each finding. -/
theorem parseStderr_parts_cut :
    parseStderr ([0x33, 0x3A, 0x37, 0x3A, 0xC3] ++ 10 :: [0xA9]) (some 1) =
        .ok [{ message := LooseText.ofString "\uFFFD", line := some 2, column := some 6 },
          { message := LooseText.ofString "\uFFFD" }] ∧
      (∃ found, parseStderr [0x20, 0xC3, 0x0B, 0xA9] none = .ok found ∧ found.length = 2) ∧
      parseStderrOr (fun _ => []) [0x0B, 0x20] none = .ok [silentFinding none] := by
  obtain ⟨hparts, hlines, hdead⟩ := parseStderr_parts
  refine ⟨?_, ?_, ?_⟩
  · have hread : decodeLossy [0x33, 0x3A, 0x37, 0x3A, 0xC3] = "3:7:\uFFFD".toList ∧
        decodeLossy [0xA9] = "\uFFFD".toList := by decide +kernel
    rw [hparts, parseStderr, parseStderr, hread.1, hread.2]
    rfl
  · have hread : decodeLossy [0x20, 0xC3, 0x0B, 0xA9] = " \uFFFD\x0b\uFFFD".toList := by
      decide +kernel
    obtain ⟨found, hfound, -, hlength⟩ := (hlines [0x20, 0xC3, 0x0B, 0xA9] none
      (hread ▸ shortRuns_of_length (by decide))).1 (by rw [hread]; decide)
    rw [hread] at hlength
    exact ⟨found, hfound, hlength⟩
  · have hread : decodeLossy [0x0B, 0x20] = "\x0b ".toList := by decide +kernel
    rw [hdead, parseStderr, hread]
    rfl

end Transcript

end AnalyzerBridge
