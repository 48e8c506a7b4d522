/-
Whether a cursor comes back to where a finding is shown.

Findings are placed by counting line feeds and characters, and a cursor is read by a document,
which counts line breaks of every kind and UTF-16 code units.

* `Text.lines_append` — a line feed separates the lines of a text from what follows;
* `Text.break_in_line`, `Text.prefix_of_unbroken` — inside of a line no character breaks it, but
  the first half of a `\r\n`, and what nothing breaks stays in one line;
* `newlineCount_eq_length_iff` — so there are as many lines as line feeds if every line
  ends in one;
* `Documented` — what a document says of the conversion of its cursors;
* `recovers_of_readBack`, `readBack_of_recovers` — under such a conversion an offset comes back
  only if the lines above end in line feeds and nothing to its left breaks a line or is wide, and
  then it does wherever its position denotes a place;
* `hover_recovers` — then hovering where a finding starts looks up the word there;
* `documented_cursorOffset` — the conversion of runs is a documented one.

Design notes: a text is cut at the offset, and the part before at its last line feed, so
that no arithmetic on offsets is needed.  Nothing is documented of a column inside of a character or
of a terminator, nor of a line below the last one, so nothing is asked of a conversion there.
-/
import AnalyzerBridge.Proofs.Newline
import AnalyzerBridge.Proofs.Placement

namespace AnalyzerBridge

/-! ### Lines -/

namespace Text

theorem isLineBreak_lineFeed : isLineBreak '\n' = true := by decide

/-- The text is empty or ends in a line feed. -/
def EndsLine (text : List Char) : Prop :=
  ∀ c ∈ text.getLast?, c = '\n'

theorem lines_eq_nil_iff {text : List Char} : lines text = [] ↔ text = [] := by
  constructor
  · intro h
    have hflat := flatten_lines text
    rw [h] at hflat
    exact hflat.symm
  · rintro rfl
    rfl

/-- A line feed separates the lines of a text from what follows. -/
theorem lines_append {above : List Char} (h : EndsLine above) (rest : List Char) :
    lines (above ++ rest) = lines above ++ lines rest := by
  induction above with
  | nil => rfl
  | cons c above ih =>
    cases above with
    | nil =>
      obtain rfl : c = '\n' := h c rfl
      show consLine '\n' (lines rest) = ['\n'] :: lines rest
      cases hlines : lines rest with
      | nil => rfl
      | cons line more => rw [consLine_cons, if_pos (by simp [isLineBreak])]
    | cons d above =>
      have hmore := ih fun e he => h e he
      obtain ⟨line, more, hlines⟩ : ∃ line more, lines (d :: above) = line :: more :=
        List.exists_cons_of_ne_nil fun hnil => List.cons_ne_nil _ _ (lines_eq_nil_iff.mp hnil)
      rw [List.cons_append, lines_cons, hmore, lines_cons c (d :: above), hlines, List.cons_append,
        consLine_cons, consLine_cons]
      split <;> rfl

theorem singleton_ne_append (e c d : Char) (front more : List Char) :
    [e] ≠ front ++ c :: d :: more := by
  intro h
  have hlength := congrArg List.length h
  simp only [List.length_append, List.length_cons, List.length_nil] at hlength
  omega

/-- Inside of a line no character breaks it, but a carriage return before a line feed. -/
theorem break_in_line {text line front more : List Char} {c d : Char} (hline : line ∈ lines text)
    (hsplit : line = front ++ c :: d :: more) (hbreak : isLineBreak c = true) :
    c = '\r' ∧ d = '\n' := by
  induction text generalizing line front with
  | nil => exact absurd hline (by simp [lines])
  | cons e rest ih =>
    rw [lines_cons] at hline
    cases hlines : lines rest with
    | nil =>
      rw [hlines] at hline
      obtain rfl := List.mem_singleton.mp hline
      exact absurd hsplit (singleton_ne_append e c d front more)
    | cons first following =>
      rw [hlines, consLine_cons] at hline
      rw [hlines] at ih
      split at hline
      · rcases List.mem_cons.mp hline with rfl | hmem
        · exact absurd hsplit (singleton_ne_append e c d front more)
        · exact ih hmem hsplit
      next hjoined =>
        rcases List.mem_cons.mp hline with rfl | hmem
        · cases front with
          | nil =>
            -- the character was put in front of the line, so it does not end one of its own
            obtain ⟨rfl, rfl⟩ := List.cons.inj hsplit
            rw [hbreak] at hjoined
            simpa using hjoined
          | cons f front =>
            exact ih (List.mem_cons_self) (List.cons.inj hsplit).2
        · exact ih (List.mem_cons_of_mem _ hmem) hsplit

/-- A text without line breaks joins the line that follows. -/
theorem lines_unbroken {front rest line : List Char} {more : List (List Char)}
    (h : ∀ c ∈ front, isLineBreak c = false) (hlines : lines rest = line :: more) :
    lines (front ++ rest) = (front ++ line) :: more := by
  induction front with
  | nil => exact hlines
  | cons c front ih =>
    rw [List.cons_append, lines_cons, ih fun d hd => h d (List.mem_cons_of_mem _ hd), consLine_cons,
      h c List.mem_cons_self]
    rfl

/-- What no character but the last breaks stays in one line. -/
theorem prefix_of_unbroken {left right line : List Char} {more : List (List Char)}
    (h : ∀ c ∈ left.dropLast, isLineBreak c = false) (hlines : lines (left ++ right) = line :: more) :
    left <+: line := by
  rcases List.eq_nil_or_concat' left with rfl | ⟨front, last, rfl⟩
  · exact List.nil_prefix
  rw [List.dropLast_concat] at h
  obtain ⟨following, others, hrest⟩ : ∃ following others, lines ([last] ++ right) = following :: others :=
    List.exists_cons_of_ne_nil fun hnil => absurd (lines_eq_nil_iff.mp hnil) (by simp)
  have hjoined := lines_unbroken h hrest
  rw [← List.append_assoc, hlines] at hjoined
  obtain ⟨rfl, rfl⟩ := List.cons.inj hjoined
  have hflat := flatten_lines ([last] ++ right)
  rw [hrest, List.flatten_cons] at hflat
  have hmem : following ∈ lines ([last] ++ right) := by
    rw [hrest]
    exact List.mem_cons_self
  obtain ⟨c, rest, rfl⟩ := List.exists_cons_of_ne_nil (ne_nil_of_mem_lines hmem)
  obtain ⟨rfl, -⟩ := List.cons.inj hflat
  exact ⟨rest, by simp⟩

/-- A part of a text without line feeds is longer than the line that it starts in if any of its characters
but the last breaks that line. -/
theorem length_lt_of_break {left right line : List Char} {more : List (List Char)} (hleft : '\n' ∉ left)
    (hlines : lines (left ++ right) = line :: more) {c : Char} (hc : c ∈ left.dropLast)
    (hbreak : isLineBreak c = true) : line.length < left.length := by
  obtain ⟨front, last, rfl⟩ := (List.eq_nil_or_concat' left).resolve_left (by
    rintro rfl
    exact absurd hc (by simp))
  rw [List.dropLast_concat] at hc
  by_contra hlt
  -- then the whole part is in the line
  have hflat := flatten_lines (front ++ [last] ++ right)
  rw [hlines, List.flatten_cons] at hflat
  obtain ⟨rest, rfl⟩ : front ++ [last] <+: line := by
    refine List.prefix_of_prefix_length_le (List.prefix_append _ right) ?_ (Nat.not_lt.mp hlt)
    rw [← hflat]
    exact List.prefix_append _ _
  obtain ⟨a, b, rfl⟩ := List.append_of_mem hc
  have hmem : a ++ c :: b ++ [last] ++ rest ∈ lines (a ++ c :: b ++ [last] ++ right) := by
    rw [hlines]
    exact List.mem_cons_self
  -- the character after a break inside of a line is a line feed, but there is none in the part
  cases b with
  | nil =>
    have hsplit : a ++ [c] ++ [last] ++ rest = a ++ c :: last :: rest := by simp
    obtain ⟨-, rfl⟩ := break_in_line hmem hsplit hbreak
    exact hleft (by simp)
  | cons d b =>
    have hsplit : a ++ c :: d :: b ++ [last] ++ rest = a ++ c :: d :: (b ++ [last] ++ rest) := by simp
    obtain ⟨-, rfl⟩ := break_in_line hmem hsplit hbreak
    exact hleft (by simp)

end Text

/-! ### Line feeds and lines -/

theorem newlineCount_append (a b : List Char) :
    newlineCount (a ++ b) = newlineCount a + newlineCount b :=
  List.countP_append

theorem newlineCount_eq_zero {text : List Char} (h : '\n' ∉ text) : newlineCount text = 0 := by
  rw [newlineCount, List.countP_eq_zero]
  intro c hc heq
  obtain rfl := beq_iff_eq.mp heq
  exact h hc

/-- A line has one line feed, at its end, or none. -/
theorem newlineCount_of_mem_lines {text line : List Char} (h : line ∈ Text.lines text) :
    newlineCount line = if line.getLast? = some '\n' then 1 else 0 := by
  obtain ⟨front, last, rfl⟩ := (List.eq_nil_or_concat' line).resolve_left (Text.ne_nil_of_mem_lines h)
  have hfront : '\n' ∉ front := by
    intro hmem
    obtain ⟨a, b, rfl⟩ := List.append_of_mem hmem
    cases b with
    | nil =>
      have hsplit : a ++ ['\n'] ++ [last] = a ++ '\n' :: last :: [] := by simp
      exact absurd (Text.break_in_line h hsplit Text.isLineBreak_lineFeed).1 (by decide)
    | cons d b =>
      have hsplit : a ++ '\n' :: d :: b ++ [last] = a ++ '\n' :: d :: (b ++ [last]) := by simp
      exact absurd (Text.break_in_line h hsplit Text.isLineBreak_lineFeed).1 (by decide)
  rw [newlineCount_snoc, newlineCount_eq_zero hfront, List.getLast?_concat, Nat.zero_add]
  simp

theorem newlineCount_eq_countP (text : List Char) :
    newlineCount text = (Text.lines text).countP fun line => line.getLast? == some '\n' := by
  have hall : ∀ ls : List (List Char),
      (∀ line ∈ ls, newlineCount line = if line.getLast? = some '\n' then 1 else 0) →
        newlineCount ls.flatten = ls.countP fun line => line.getLast? == some '\n' := by
    intro ls hls
    induction ls with
    | nil => rfl
    | cons line ls ih =>
      rw [List.flatten_cons, newlineCount_append, hls line List.mem_cons_self,
        ih fun l hl => hls l (List.mem_cons_of_mem _ hl), List.countP_cons, Nat.add_comm]
      simp
  have hlines := hall (Text.lines text) fun line => newlineCount_of_mem_lines
  rwa [Text.flatten_lines] at hlines

theorem newlineCount_le_length (text : List Char) : newlineCount text ≤ (Text.lines text).length := by
  rw [newlineCount_eq_countP]
  exact List.countP_le_length

/-- There are as many lines as line feeds if every line ends in one. -/
theorem newlineCount_eq_length_iff {text : List Char} :
    newlineCount text = (Text.lines text).length ↔
      ∀ line ∈ Text.lines text, line.getLast? = some '\n' := by
  rw [newlineCount_eq_countP, List.countP_eq_length]
  simp

/-! ### Columns -/

theorem unitWidth_cases (c : Char) : unitWidth c = 1 ∨ unitWidth c = 2 := by
  rw [unitWidth]
  split
  · exact Or.inl rfl
  · exact Or.inr rfl

theorem unitLength_cons (c : Char) (rest : List Char) :
    unitLength (c :: rest) = unitWidth c + unitLength rest := rfl

theorem length_le_unitLength (text : List Char) : text.length ≤ unitLength text := by
  induction text with
  | nil => exact Nat.le_refl 0
  | cons c rest ih =>
    rw [unitLength_cons, List.length_cons]
    rcases unitWidth_cases c with h | h <;> omega

/-- A text has as many code units as characters if all of them are one unit wide. -/
theorem unitLength_eq_length_iff {text : List Char} :
    unitLength text = text.length ↔ ∀ c ∈ text, unitWidth c = 1 := by
  induction text with
  | nil => simp [unitLength]
  | cons c rest ih =>
    have hle := length_le_unitLength rest
    rw [unitLength_cons, List.length_cons, List.forall_mem_cons, ← ih]
    rcases unitWidth_cases c with h | h <;> omega

/-- A stretch of characters that neither break a line nor are wide. -/
def Plain (text : List Char) : Prop :=
  ∀ c ∈ text, Text.isLineBreak c = false ∧ unitWidth c = 1

theorem Plain.unbroken {text : List Char} (h : Plain text) : ∀ c ∈ text, Text.isLineBreak c = false :=
  fun c hc => (h c hc).1

/-- A plain stretch has as many code units as characters. -/
theorem Plain.unitLength_eq {text : List Char} (h : Plain text) : unitLength text = text.length :=
  unitLength_eq_length_iff.mpr fun c hc => (h c hc).2

/-! ### Offsets -/

/-- The part of a text up to its last line feed. -/
def upperPart (text : List Char) : List Char :=
  (text.reverse.dropWhile (· != '\n')).reverse

/-- The part of a text behind its last line feed. -/
def lastPart (text : List Char) : List Char :=
  (text.reverse.takeWhile (· != '\n')).reverse

theorem upperPart_append_lastPart (text : List Char) : upperPart text ++ lastPart text = text := by
  rw [upperPart, lastPart, ← List.reverse_append, List.takeWhile_append_dropWhile,
    List.reverse_reverse]

theorem lineFeed_not_mem_lastPart (text : List Char) : '\n' ∉ lastPart text := by
  intro h
  rw [lastPart, List.mem_reverse] at h
  exact absurd (List.mem_takeWhile_imp h) (by simp)

theorem endsLine_upperPart (text : List Char) : Text.EndsLine (upperPart text) := by
  intro c hc
  rw [upperPart, List.getLast?_reverse] at hc
  have hhead := List.head?_dropWhile_not (· != '\n') text.reverse
  rw [Option.mem_def.mp hc] at hhead
  simpa using hhead

theorem columnCount_eq (text : List Char) : columnCount text = (lastPart text).length := by
  rw [columnCount, lastPart, List.length_reverse]

theorem newlineCount_eq (text : List Char) : newlineCount text = newlineCount (upperPart text) := by
  have hsplit := congrArg newlineCount (upperPart_append_lastPart text)
  rw [newlineCount_append, newlineCount_eq_zero (lineFeed_not_mem_lastPart text)] at hsplit
  exact hsplit.symm

theorem positionAt_length (before right : List Char) :
    positionAt (before ++ right) before.length = (newlineCount before, columnCount before) := by
  have hclamp : clampOffset (before ++ right).length before.length = before.length := by
    have hcases := clampOffset_cases (before ++ right).length before.length
    rw [List.length_append] at hcases ⊢
    omega
  simp only [positionAt, hclamp, List.take_left']

/-! ### Documented conversions -/

/-- What a document says of the conversion of its cursors: a column counts the UTF-16 code units of the
front of a line, as long as nothing ends the line there; a smaller column is not read further on; and no
column is read as an offset behind the line. -/
structure Documented (offsetAt : OffsetAt) : Prop where
  inside : ∀ {text line front : List Char} {n : Nat}, (Text.lines text)[n]? = some line → front <+: line →
    (∀ c ∈ front, Text.isLineBreak c = false) →
      offsetAt text n (unitLength front) = ((Text.lines text).take n).flatten.length + front.length
  within : ∀ {text line front : List Char} {n units : Nat}, (Text.lines text)[n]? = some line →
    front <+: line → (∀ c ∈ front, Text.isLineBreak c = false) → units ≤ unitLength front →
      offsetAt text n units ≤ ((Text.lines text).take n).flatten.length + front.length
  bounded : ∀ {text line : List Char} {n : Nat} (units : Nat), (Text.lines text)[n]? = some line →
    offsetAt text n units ≤ ((Text.lines text).take n).flatten.length + line.length

variable {offsetAt : OffsetAt}

theorem Documented.start (h : Documented offsetAt) {text line : List Char} {n : Nat}
    (hline : (Text.lines text)[n]? = some line) :
    offsetAt text n 0 = ((Text.lines text).take n).flatten.length := by
  have hzero := h.inside hline List.nil_prefix (by simp)
  exact hzero

/-- What it takes for a cursor to come back to the end of a part of a text: every line above ends in a
line feed, and what stands in its line up to the last character is plain. -/
structure Recovers (before : List Char) : Prop where
  above : ∀ line ∈ Text.lines (upperPart before), line.getLast? = some '\n'
  left : Plain (lastPart before).dropLast

/-- The position at a cut of a text denotes a place: the character to its left, if there is one in its
line, is plain, and the line is there. -/
structure Denoted (before right : List Char) : Prop where
  left : ∀ c ∈ (lastPart before).getLast?, Text.isLineBreak c = false ∧ unitWidth c = 1
  line : lastPart before ++ right ≠ []

/-- The offset that is read from a cursor at the position of an offset. -/
def readBack (offsetAt : OffsetAt) (text : List Char) (offset : Int) : Nat :=
  offsetAt text (positionAt text offset).1 (positionAt text offset).2

theorem readBack_length (offsetAt : OffsetAt) (before right : List Char) :
    readBack offsetAt (before ++ right) before.length =
      offsetAt (upperPart before ++ (lastPart before ++ right)) (newlineCount (upperPart before))
        (lastPart before).length := by
  rw [readBack, positionAt_length, newlineCount_eq, columnCount_eq, ← List.append_assoc,
    upperPart_append_lastPart]

theorem length_upperPart_add (before : List Char) :
    (upperPart before).length + (lastPart before).length = before.length := by
  rw [← List.length_append, upperPart_append_lastPart]

/-- A line above a place ends before the place. -/
theorem length_line_above {above line : List Char} {n : Nat} (h : (Text.lines above)[n]? = some line) :
    ((Text.lines above).take n).flatten.length + line.length ≤ above.length := by
  obtain ⟨hn, hget⟩ := List.getElem?_eq_some_iff.mp h
  have hsplit : above = ((Text.lines above).take n).flatten ++ (line ++
      ((Text.lines above).drop (n + 1)).flatten) := by
    rw [← hget, ← List.flatten_cons, ← List.drop_eq_getElem_cons hn, ← List.flatten_append,
      List.take_append_drop, Text.flatten_lines]
  have hlength := congrArg List.length hsplit
  rw [List.length_append, List.length_append] at hlength
  omega

/-- Below a line that does not end in a line feed a cursor is read too far up, and stays in front of the
offset. -/
theorem readBack_lt (hdoc : Documented offsetAt) {before : List Char}
    (h : newlineCount (upperPart before) ≠ (Text.lines (upperPart before)).length)
    (right : List Char) : readBack offsetAt (before ++ right) before.length < before.length := by
  have hlt : newlineCount (upperPart before) < (Text.lines (upperPart before)).length :=
    Nat.lt_of_le_of_ne (newlineCount_le_length _) h
  obtain ⟨line, hline⟩ : ∃ line,
      (Text.lines (upperPart before))[newlineCount (upperPart before)]? = some line :=
    ⟨_, List.getElem?_eq_getElem hlt⟩
  have hlines := Text.lines_append (endsLine_upperPart before) (lastPart before ++ right)
  have hget : (Text.lines (upperPart before ++ (lastPart before ++ right)))[newlineCount
      (upperPart before)]? = some line := by
    rw [hlines, List.getElem?_append_left hlt, hline]
  have htake : (Text.lines (upperPart before ++ (lastPart before ++ right))).take (newlineCount
      (upperPart before)) = (Text.lines (upperPart before)).take (newlineCount (upperPart before)) := by
    rw [hlines, List.take_append_of_le_length (Nat.le_of_lt hlt)]
  have hend := length_line_above hline
  rw [readBack_length, ← length_upperPart_add before]
  cases hleft : lastPart before with
  | nil =>
    have hpos : 0 < line.length :=
      List.length_pos_iff.mpr (Text.ne_nil_of_mem_lines (List.mem_of_getElem? hline))
    rw [hleft] at hget htake
    rw [List.length_nil, hdoc.start hget, htake]
    omega
  | cons c left =>
    rw [hleft] at hget htake
    have hle := hdoc.bounded (c :: left).length hget
    rw [htake] at hle
    rw [List.length_cons] at hle ⊢
    omega

/-- Below lines that end in line feeds a cursor is in the line of the offset, if there is one. -/
theorem line_of_feeds {before right line : List Char} {more : List (List Char)}
    (h : newlineCount (upperPart before) = (Text.lines (upperPart before)).length)
    (hline : Text.lines (lastPart before ++ right) = line :: more) :
    (Text.lines (upperPart before ++ (lastPart before ++ right)))[newlineCount (upperPart before)]? =
        some line ∧
      ((Text.lines (upperPart before ++ (lastPart before ++ right))).take (newlineCount
        (upperPart before))).flatten.length = (upperPart before).length := by
  rw [Text.lines_append (endsLine_upperPart before), h, hline]
  refine ⟨by simp, ?_⟩
  rw [List.take_left' rfl, Text.flatten_lines]

/-- Behind a break or a wide character a cursor stays in front of the offset. -/
theorem readBack_lt_of_left (hdoc : Documented offsetAt) {before right : List Char}
    (h : newlineCount (upperPart before) = (Text.lines (upperPart before)).length)
    (hleft : ¬ Plain (lastPart before).dropLast) :
    readBack offsetAt (before ++ right) before.length < before.length := by
  have hne : lastPart before ≠ [] := by
    intro hnil
    rw [hnil] at hleft
    exact hleft fun c hc => absurd hc (by simp)
  obtain ⟨line, more, hline⟩ : ∃ line more, Text.lines (lastPart before ++ right) = line :: more :=
    List.exists_cons_of_ne_nil fun hnil => hne (List.append_eq_nil_iff.mp (Text.lines_eq_nil_iff.mp hnil)).1
  obtain ⟨hget, hstart⟩ := line_of_feeds h hline
  rw [readBack_length, ← length_upperPart_add before]
  by_cases hbreaks : ∀ c ∈ (lastPart before).dropLast, Text.isLineBreak c = false
  · -- the part is in one line, and it has more code units than characters up to its last one
    have hwide : unitLength (lastPart before).dropLast ≠ (lastPart before).dropLast.length :=
      fun heq => hleft fun c hc => ⟨hbreaks c hc, unitLength_eq_length_iff.mp heq c hc⟩
    have hunits := length_le_unitLength (lastPart before).dropLast
    have hpos : 0 < (lastPart before).length := List.length_pos_iff.mpr hne
    have hfront : (lastPart before).dropLast <+: line :=
      (List.dropLast_prefix _).trans (Text.prefix_of_unbroken hbreaks hline)
    have hlength : (lastPart before).dropLast.length = (lastPart before).length - 1 :=
      List.length_dropLast
    have hcolumn : (lastPart before).length ≤ unitLength (lastPart before).dropLast := by omega
    have hle := hdoc.within hget hfront hbreaks hcolumn
    rw [hstart] at hle
    omega
  · simp only [not_forall, Bool.not_eq_false] at hbreaks
    obtain ⟨c, hc, hbreak⟩ := hbreaks
    have hshort := Text.length_lt_of_break (lineFeed_not_mem_lastPart before) hline hc hbreak
    have hle := hdoc.bounded (lastPart before).length hget
    rw [hstart] at hle
    omega

/-- An offset of a text comes back from its position only if it can be recovered. -/
theorem recovers_of_readBack (hdoc : Documented offsetAt) {before right : List Char}
    (h : readBack offsetAt (before ++ right) before.length = before.length) : Recovers before := by
  have hfeeds : newlineCount (upperPart before) = (Text.lines (upperPart before)).length := by
    by_contra hne
    exact absurd h (readBack_lt hdoc hne right).ne
  refine ⟨newlineCount_eq_length_iff.mp hfeeds, ?_⟩
  by_contra hleft
  exact absurd h (readBack_lt_of_left hdoc hfeeds hleft).ne

/-- An offset that can be recovered comes back from its position where this denotes a place. -/
theorem readBack_of_recovers (hdoc : Documented offsetAt) {before right : List Char}
    (h : Recovers before) (hplace : Denoted before right) :
    readBack offsetAt (before ++ right) before.length = before.length := by
  obtain ⟨line, more, hline⟩ : ∃ line more, Text.lines (lastPart before ++ right) = line :: more :=
    List.exists_cons_of_ne_nil fun hnil => hplace.line (Text.lines_eq_nil_iff.mp hnil)
  obtain ⟨hget, hstart⟩ := line_of_feeds (newlineCount_eq_length_iff.mpr h.above) hline
  have hplain : Plain (lastPart before) := by
    rcases List.eq_nil_or_concat' (lastPart before) with hnil | ⟨front, last, hconcat⟩
    · rw [hnil]
      exact fun c hc => absurd hc (by simp)
    · have hfront := h.left
      have hlast := hplace.left
      rw [hconcat, List.dropLast_concat] at hfront
      rw [hconcat, List.getLast?_concat] at hlast
      rw [hconcat]
      intro c hc
      rcases List.mem_append.mp hc with hc | hc
      · exact hfront c hc
      · obtain rfl := List.mem_singleton.mp hc
        exact hlast c rfl
  have hprefix : lastPart before <+: line := Text.prefix_of_unbroken h.left.unbroken hline
  have hread := hdoc.inside hget hprefix hplain.unbroken
  rw [hplain.unitLength_eq, hstart] at hread
  rw [readBack_length, hread, length_upperPart_add]

/-! ### The conversion of runs -/

/-- The front of a line has as many characters as its code units ask for, and a smaller column asks for no
more. -/
theorem charactersFor_append_le {units : Nat} {front : List Char} (h : units ≤ unitLength front)
    (rest : List Char) : charactersFor units (front ++ rest) ≤ front.length := by
  induction front generalizing units with
  | nil =>
    obtain rfl : units = 0 := Nat.le_zero.mp h
    simp [charactersFor]
  | cons c front ih =>
    cases units with
    | zero => exact Nat.zero_le _
    | succ units =>
      rw [unitLength_cons] at h
      rw [List.cons_append, charactersFor, List.length_cons]
      exact Nat.succ_le_succ (ih (by omega))

theorem charactersFor_append (front rest : List Char) :
    charactersFor (unitLength front) (front ++ rest) = front.length := by
  induction front with
  | nil => simp [charactersFor, unitLength]
  | cons c front ih =>
    have hpos : 0 < unitWidth c := by
      rcases unitWidth_cases c with h | h <;> omega
    obtain ⟨units, hunits⟩ := Nat.exists_eq_add_of_lt (Nat.add_pos_left hpos (unitLength front))
    rw [Nat.zero_add] at hunits
    have hrest : units + 1 - unitWidth c = unitLength front := by omega
    rw [unitLength_cons, hunits, List.cons_append, charactersFor, hrest, ih, List.length_cons]

theorem charactersFor_le_length (units : Nat) (text : List Char) :
    charactersFor units text ≤ text.length := by
  induction text generalizing units with
  | nil => cases units <;> exact Nat.le_refl 0
  | cons c rest ih =>
    cases units with
    | zero => exact Nat.zero_le _
    | succ units => exact Nat.succ_le_succ (ih _)

/-- A terminator of two characters is shortened to its second one. -/
theorem shortenTerminator_cases (line : List Char) :
    shortenTerminator line = line ∨
      ∃ front, line = front ++ ['\r', '\n'] ∧ shortenTerminator line = front ++ ['\n'] := by
  rw [shortenTerminator]
  split
  next rest hreverse =>
    refine Or.inr ⟨rest.reverse, ?_, by simp⟩
    rw [← List.reverse_reverse line, hreverse]
    simp
  next => exact Or.inl rfl

theorem length_shortenTerminator_le (line : List Char) :
    (shortenTerminator line).length ≤ line.length := by
  rcases shortenTerminator_cases line with h | ⟨front, hline, h⟩
  · rw [h]
  · rw [h, hline]
    simp

/-- Shortening the terminator of a line leaves a front that no character breaks. -/
theorem prefix_shortenTerminator {front line : List Char} (h : front <+: line)
    (hfront : ∀ c ∈ front, Text.isLineBreak c = false) : front <+: shortenTerminator line := by
  rcases shortenTerminator_cases line with heq | ⟨others, rfl, heq⟩
  · rwa [heq]
  · rw [heq]
    have hlength : front.length ≤ others.length := by
      by_contra hlt
      -- a longer front holds the carriage return
      have hbeyond : others ++ ['\r'] <+: front := by
        refine List.prefix_of_prefix_length_le ⟨['\n'], by simp⟩ h ?_
        rw [List.length_append, List.length_singleton]
        omega
      exact absurd (hfront '\r' (hbeyond.subset (by simp))) (by decide)
    exact (List.prefix_of_prefix_length_le h (List.prefix_append _ _) hlength).trans
      (List.prefix_append _ _)

theorem cursorColumn_le (line : List Char) (units : Nat) : cursorColumn line units ≤ line.length := by
  rw [cursorColumn]
  split
  · exact Nat.zero_le _
  · exact Nat.le_trans (charactersFor_le_length _ _) (length_shortenTerminator_le line)

theorem unitLength_append (a b : List Char) : unitLength (a ++ b) = unitLength a + unitLength b := by
  induction a with
  | nil => simp [unitLength]
  | cons c a ih => rw [List.cons_append, unitLength_cons, unitLength_cons, ih, Nat.add_assoc]

section Column

variable {line front : List Char} (h : front <+: line) (hfront : ∀ c ∈ front, Text.isLineBreak c = false)

include h hfront

/-- Up to the width of an unbroken front of a line, a column counts code units. -/
theorem cursorColumn_eq {units : Nat} (hunits : units ≤ unitLength front) :
    cursorColumn line units = charactersFor units (shortenTerminator line) := by
  obtain ⟨rest, hshorten⟩ := prefix_shortenTerminator h hfront
  have hsize := unitLength_append front rest
  rw [cursorColumn, ← hshorten]
  split
  next hzero =>
    obtain rfl : units = 0 := by omega
    simp [charactersFor]
  next => rw [if_neg (by omega)]

theorem cursorColumn_front : cursorColumn line (unitLength front) = front.length := by
  obtain ⟨rest, hshorten⟩ := prefix_shortenTerminator h hfront
  rw [cursorColumn_eq h hfront (Nat.le_refl _), ← hshorten, charactersFor_append]

theorem cursorColumn_within {units : Nat} (hunits : units ≤ unitLength front) :
    cursorColumn line units ≤ front.length := by
  obtain ⟨rest, hshorten⟩ := prefix_shortenTerminator h hfront
  rw [cursorColumn_eq h hfront hunits, ← hshorten]
  exact charactersFor_append_le hunits rest

end Column

theorem charactersIn_eq (ls : List (List Char)) :
    ls.foldr (fun l count => l.length + count) 0 = ls.flatten.length := by
  induction ls with
  | nil => rfl
  | cons line ls ih => rw [List.foldr_cons, ih, List.flatten_cons, List.length_append]

theorem cursorOffset_of_line {text line : List Char} {n : Nat} (h : (Text.lines text)[n]? = some line)
    (units : Nat) :
    cursorOffset text n units =
      ((Text.lines text).take n).flatten.length + cursorColumn line units := by
  simp only [cursorOffset, h, charactersIn_eq]

/-- The conversion of runs is a documented one. -/
theorem documented_cursorOffset : Documented cursorOffset where
  inside hline hprefix hfront := by
    rw [cursorOffset_of_line hline, cursorColumn_front hprefix hfront]
  within hline hprefix hfront hunits := by
    rw [cursorOffset_of_line hline]
    exact Nat.add_le_add_left (cursorColumn_within hprefix hfront hunits) _
  bounded units hline := by
    rw [cursorOffset_of_line hline]
    exact Nat.add_le_add_left (cursorColumn_le _ units) _

/-- A line that ends in a carriage return alone counts for the cursor only. -/
example : readBack cursorOffset "x\rSELF)".toList 6 = 1 := by decide

/-! ### Hovering -/

namespace Service

/-- The explanation of the word at an offset. -/
def explanationAt (text : List Char) (offset : Int) : Option String :=
  (Symbol.wordAt text offset).bind fun word => Symbol.hover? (String.ofList word)

section Hover

variable {ε : Type} {w : Workspace ε} {uri : String} {text : List Char}

/-- Hovering explains the word at the offset that is read from the cursor. -/
theorem hover_of_legal (htext : (w.document uri).text.toList = text) {cursor : Position}
    (hlegal : cursor.Legal) (offsetAt : OffsetAt) :
    hover uri cursor.line cursor.character offsetAt w =
      (.ok (explanationAt text (offsetAt text cursor.line.toNat cursor.character.toNat)), w) := by
  have hmake : (Act.ofExcept (Position.make cursor.line cursor.character) :
      Act (Workspace ε) Position) w = (.ok cursor, w) := by
    rw [Act.ofExcept_apply]
    exact congrArg (·, w) (Position.make_of_legal hlegal)
  rw [hover, Act.run_bind hmake, Act.run_bind (Act.look_apply _ w), htext]
  rfl

/-- Hovering where a finding starts explains the word at the offset that is read back. -/
theorem hover_start {d : Descriptor} {offset : Int} (htext : (w.document uri).text.toList = text)
    (hoffset : d.offset = some offset) (hplaceable : d.Placeable text) (offsetAt : OffsetAt) :
    hover uri (d.span text).start.line (d.span text).start.character offsetAt w =
      (.ok (explanationAt text (readBack offsetAt text offset)), w) := by
  have hstart : (d.span text).start = placeAt text offset := by
    simp only [Descriptor.span, hoffset]
  have hlegal : (d.span text).start.Legal := (Descriptor.legal_span_iff.mpr hplaceable).1
  rw [hover_of_legal htext hlegal, hstart]
  rfl

end Hover

/-- An offset of a text comes back from its position only if it can be recovered; where the position
denotes a place it comes back exactly if so, and then hovering over the start of a finding that is shown
explains the word at the offset of the finding. -/
theorem hover_recovers {offsetAt : OffsetAt} (hdoc : Documented offsetAt) (before right : List Char) :
    (readBack offsetAt (before ++ right) before.length = before.length → Recovers before) ∧
    (Denoted before right →
      (readBack offsetAt (before ++ right) before.length = before.length ↔ Recovers before) ∧
      ∀ {ε : Type} (w : Workspace ε) (uri : String) (d : Descriptor),
        (w.document uri).text.toList = before ++ right → d.offset = some (before.length : Int) →
          d.Placeable (before ++ right) → Recovers before →
            hover uri (d.span (before ++ right)).start.line (d.span (before ++ right)).start.character
                offsetAt w =
              (.ok (explanationAt (before ++ right) before.length), w)) := by
  refine ⟨recovers_of_readBack hdoc, fun hplace => ⟨⟨recovers_of_readBack hdoc, fun hrecovers =>
    readBack_of_recovers hdoc hrecovers hplace⟩, fun w uri d htext hoffset hplaceable hrecovers => ?_⟩⟩
  rw [hover_start htext hoffset hplaceable offsetAt, readBack_of_recovers hdoc hrecovers hplace]

/-- A service without an analyzer. -/
def scanning : Service Unit where
  invoke := fun _ _ => throw .unending

/-- A workspace with an open document. -/
def showing (text : String) : Workspace Unit where
  documents := [("u", { text := text, version := some 1 })]
  settings := some { enabled := false }
  surroundings := ()

/-- A bracket after a name is shown where hovering finds the name, if nothing before it is wide. -/
theorem hover_recovers_plain : Documented cursorOffset ∧ Denoted "SELF".toList [')'] ∧
    Recovers "SELF".toList ∧ ∃ d ∈ Scan.findings "SELF)".toList,
      d.offset = some 4 ∧ d.Placeable "SELF)".toList ∧
      hover "u" (d.span "SELF)".toList).start.line (d.span "SELF)".toList).start.character cursorOffset
        (showing "SELF)") = (.ok (Symbol.hover? "SELF"), showing "SELF)") := by
  have hshort : "SELF)".toList.length < 2 ^ 31 := by
    show 5 < 2 ^ 31
    norm_num
  obtain ⟨d, hd, hoffset, hplaceable⟩ : ∃ d ∈ Scan.findings "SELF)".toList,
      d.offset = some 4 ∧ d.Placeable "SELF)".toList :=
    ⟨_, List.mem_singleton.mpr rfl, rfl, Descriptor.placeable_of_offset rfl hshort⟩
  have hrecovers : Recovers "SELF".toList := by
    refine ⟨by decide, ?_⟩
    intro c hc
    have hletter : c ∈ ['S', 'E', 'L'] := hc
    simp only [List.mem_cons, List.not_mem_nil, or_false] at hletter
    rcases hletter with rfl | rfl | rfl <;> exact ⟨rfl, rfl⟩
  have hplace : Denoted "SELF".toList [')'] := by
    refine ⟨?_, by decide⟩
    intro c hc
    obtain rfl : 'F' = c := Option.some_inj.mp hc
    exact ⟨rfl, rfl⟩
  obtain ⟨-, hhover⟩ := hover_recovers documented_cursorOffset "SELF".toList [')']
  exact ⟨documented_cursorOffset, hplace, hrecovers, d, hd, hoffset, hplaceable,
    (hhover hplace).2 (showing "SELF)") "u" d rfl hoffset hplaceable hrecovers⟩

/-- A text with wide characters before a name and a bracket. -/
def wide : String := "😀😀😀😀 SELF)"

/-- A bracket after a name is shown where hovering does not find the name, if wide characters stand before
it: whatever documented conversion there is, the cursor is read as an offset in front of the name. -/
theorem hover_astray : ∃ o w' message,
    scanning.validate "u" (showing wide) = (.ok (some o), w') ∧
      (∃ d ∈ o.errors, d.offset = some 9) ∧
      (∃ p ∈ w'.published, p.diagnostics = [⟨⟨⟨0, 9⟩, ⟨0, 10⟩⟩, message⟩]) ∧
      positionAt wide.toList 9 = (0, 9) ∧
      Symbol.wordAt wide.toList 9 = some "SELF".toList ∧ Symbol.hover? "SELF" ≠ none ∧
      Documented cursorOffset ∧ hover "u" 0 9 cursorOffset w' = (.ok none, w') ∧
      ∀ offsetAt, Documented offsetAt →
        offsetAt wide.toList 0 9 = 5 ∧ hover "u" 0 9 offsetAt w' = (.ok none, w') := by
  have hread (offsetAt : OffsetAt) (hdoc : Documented offsetAt) : offsetAt wide.toList 0 9 = 5 := by
    have hline : (Text.lines wide.toList)[0]? = some wide.toList := by decide
    have hprefix : wide.toList.take 5 <+: wide.toList := List.take_prefix _ _
    have hunbroken : ∀ c ∈ wide.toList.take 5, Text.isLineBreak c = false := by
      intro c hc
      have hmem : c ∈ ['😀', '😀', '😀', '😀', ' '] := hc
      simp only [List.mem_cons, List.not_mem_nil, or_false] at hmem
      rcases hmem with rfl | rfl | rfl | rfl | rfl <;> rfl
    have hunits : unitLength (wide.toList.take 5) = 9 := by decide
    have hinside := hdoc.inside hline hprefix hunbroken
    rw [hunits] at hinside
    exact hinside
  have hlegal : (⟨0, 9⟩ : Position).Legal := ⟨⟨by decide, by decide⟩, ⟨by decide, by decide⟩⟩
  have hnothing : explanationAt wide.toList 5 = none := by decide
  obtain ⟨o, w', message, hvalidate, herrors, hpublished, htext⟩ : ∃ o w' message,
      scanning.validate "u" (showing wide) = (.ok (some o), w') ∧ (∃ d ∈ o.errors, d.offset = some 9) ∧
        (∃ p ∈ w'.published, p.diagnostics = [⟨⟨⟨0, 9⟩, ⟨0, 10⟩⟩, message⟩]) ∧
        (w'.document "u").text.toList = wide.toList :=
    ⟨_, _, _, rfl, ⟨_, List.mem_singleton.mpr rfl, rfl⟩, ⟨_, List.mem_cons_self, rfl⟩, rfl⟩
  have hhover (offsetAt : OffsetAt) (hdoc : Documented offsetAt) :
      hover "u" 0 9 offsetAt w' = (.ok none, w') := by
    refine (hover_of_legal htext hlegal offsetAt).trans ?_
    have hoffset : offsetAt wide.toList (0 : Int).toNat (9 : Int).toNat = 5 := hread offsetAt hdoc
    rw [hoffset]
    exact congrArg (fun found => (Except.ok found, w')) hnothing
  exact ⟨o, w', message, hvalidate, herrors, hpublished, by decide, by decide, by decide,
    documented_cursorOffset, hhover cursorOffset documented_cursorOffset,
    fun offsetAt hdoc => ⟨hread offsetAt hdoc, hhover offsetAt hdoc⟩⟩

end Service

end AnalyzerBridge
