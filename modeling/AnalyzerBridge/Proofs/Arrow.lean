/-
Which arrows are misplaced.

An arrow is misplaced where nothing but blanks stands before it in its line.

* `Text.startsLine_iff` — a line starts where the text does and behind each line break, but
  not between the two halves of a `\r\n`;
* `Text.LineAt.take_two` — what ends a line is no half of an arrow, so no arrow is cut;
* `arrowIndent?_eq_some_iff` — a line is asked for an arrow behind blanks;
* `arrowIndent?_eq_some_iff_strip` — that is the first arrow of a line that begins with one
  once it is stripped;
* `arrowFindings_exact` — the findings are on all misplaced arrows, by offset, and on
  nothing else.

Design notes: the offset of a line is the number of characters in the lines above it,
terminators included.
-/
import AnalyzerBridge.Proofs.Strip
import AnalyzerBridge.Proofs.Sweep

namespace AnalyzerBridge

/-! ### Where lines start -/

namespace Text

/-- A line that has so many characters above it. -/
def LineAt (ls : List (List Char)) (start : Nat) (line : List Char) : Prop :=
  ∃ above below, ls = above ++ line :: below ∧ above.flatten.length = start

/-- A line starts at the offset: the text does, or what stands before ends a line. -/
def StartsLine (text : List Char) (start : Nat) : Prop :=
  start < text.length ∧
    (start = 0 ∨ ∃ c, text[start - 1]? = some c ∧ isLineBreak c = true ∧
      ¬ (c = '\r' ∧ text[start]? = some '\n'))

theorem lineAt_nil {start : Nat} {line : List Char} : ¬ LineAt [] start line := by
  rintro ⟨above, below, h, -⟩
  exact absurd h.symm (by simp)

theorem lineAt_cons {first line : List Char} {more : List (List Char)} {start : Nat} :
    LineAt (first :: more) start line ↔
      start = 0 ∧ line = first ∨ ∃ t, start = first.length + t ∧ LineAt more t line := by
  constructor
  · rintro ⟨above, below, h, rfl⟩
    cases above with
    | nil =>
      obtain ⟨rfl, -⟩ := List.cons.inj h
      exact Or.inl ⟨rfl, rfl⟩
    | cons l above =>
      obtain ⟨rfl, rfl⟩ := List.cons.inj h
      exact Or.inr ⟨above.flatten.length, by rw [List.flatten_cons, List.length_append],
        above, below, rfl, rfl⟩
  · rintro (⟨rfl, rfl⟩ | ⟨t, rfl, above, below, rfl, rfl⟩)
    · exact ⟨[], more, rfl, rfl⟩
    · exact ⟨first :: above, below, rfl, by rw [List.flatten_cons, List.length_append]⟩

/-- Below a line of one character everything is one character further down. -/
theorem lineAt_own {c : Char} {more : List (List Char)} {start : Nat} {line : List Char} :
    LineAt ([c] :: more) (start + 1) line ↔ LineAt more start line := by
  rw [lineAt_cons, List.length_singleton]
  constructor
  · rintro (⟨h, -⟩ | ⟨t, h, hline⟩)
    · exact absurd h (Nat.succ_ne_zero start)
    · obtain rfl : start = t := by omega
      exact hline
  · exact fun hline => Or.inr ⟨start, Nat.add_comm start 1, hline⟩

/-- If a character joins the first line, that line starts no more where it did, and all others are one
character further down. -/
theorem lineAt_joined {c : Char} {first : List Char} (hfirst : first ≠ []) {more : List (List Char)}
    {start : Nat} {line : List Char} :
    LineAt ((c :: first) :: more) (start + 1) line ↔ LineAt (first :: more) start line ∧ start ≠ 0 := by
  have hlength : 0 < first.length := List.length_pos_iff.mpr hfirst
  rw [lineAt_cons, lineAt_cons, List.length_cons]
  constructor
  · rintro (⟨h, -⟩ | ⟨t, h, hline⟩)
    · exact absurd h (Nat.succ_ne_zero start)
    · exact ⟨Or.inr ⟨t, by omega, hline⟩, by omega⟩
  · rintro ⟨⟨h, -⟩ | ⟨t, h, hline⟩, hstart⟩
    · exact absurd h hstart
    · exact Or.inr ⟨t, by omega, hline⟩

theorem startsLine_cons {c : Char} {rest : List Char} {start : Nat} :
    StartsLine (c :: rest) (start + 1) ↔
      StartsLine rest start ∧
        (start = 0 → isLineBreak c = true ∧ ¬ (c = '\r' ∧ rest.head? = some '\n')) := by
  cases start with
  | zero => simp [StartsLine, List.head?_eq_getElem?]
  | succ start => simp [StartsLine]

/-- Lines start at the start of the text and behind line breaks. -/
theorem startsLine_iff {text : List Char} {start : Nat} :
    StartsLine text start ↔ ∃ line, LineAt (lines text) start line := by
  induction text generalizing start with
  | nil => exact iff_of_false (by simp [StartsLine]) fun ⟨_, h⟩ => lineAt_nil h
  | cons c rest ih =>
    cases start with
    | zero =>
      obtain ⟨line, more, h⟩ := List.exists_cons_of_ne_nil
        (mt lines_eq_nil_iff.mp (List.cons_ne_nil c rest))
      exact iff_of_true ⟨Nat.succ_pos _, Or.inl rfl⟩ ⟨line, [], more, h, rfl⟩
    | succ start =>
      rw [startsLine_cons, ih, lines_cons]
      cases hlines : lines rest with
      | nil =>
        refine iff_of_false (fun ⟨⟨_, h⟩, _⟩ => lineAt_nil h) fun ⟨line, h⟩ => ?_
        exact lineAt_nil (lineAt_own.mp h)
      | cons first more =>
        have hfirst : first ≠ [] := ne_nil_of_mem_lines (hlines ▸ List.mem_cons_self)
        have hhead : rest.head? = first.head? := by
          rw [← flatten_lines rest, hlines, List.flatten_cons, List.head?_append_of_ne_nil _ hfirst]
        have hcond : (isLineBreak c && !(c == '\r' && first.head? == some '\n')) = true ↔
            isLineBreak c = true ∧ ¬ (c = '\r' ∧ first.head? = some '\n') := by
          rw [Bool.and_eq_true, Bool.not_eq_true', ← Bool.not_eq_true, Bool.and_eq_true, beq_iff_eq,
            beq_iff_eq]
        rw [consLine_cons, hhead, ← hcond]
        split
        next hbreak =>
          rw [and_iff_left fun _ => hbreak]
          exact exists_congr fun line => lineAt_own.symm
        next hopen =>
          simp only [lineAt_joined hfirst, exists_and_right, iff_false_intro hopen, imp_false, ne_eq]

section LineAt

variable {text line : List Char} {start : Nat} (h : LineAt (lines text) start line)
include h

theorem LineAt.ne_nil : line ≠ [] := by
  obtain ⟨above, below, hlines, -⟩ := h
  exact ne_nil_of_mem_lines (hlines ▸ List.mem_append_right above List.mem_cons_self)

/-- What follows the offset of a line is the line, and either it ends in a line break or the text ends
with it. -/
theorem LineAt.exists_drop_eq :
    ∃ rest, text.drop start = line ++ rest ∧
      (rest = [] ∨ ∃ c ∈ line.getLast?, isLineBreak c = true) := by
  have hpos : 0 < line.length := List.length_pos_iff.mpr h.ne_nil
  obtain ⟨above, below, hlines, rfl⟩ := h
  have htext : text = above.flatten ++ (line ++ below.flatten) := by
    rw [← flatten_lines text, hlines, List.flatten_append, List.flatten_cons]
  refine ⟨below.flatten, by rw [htext, List.drop_left], ?_⟩
  cases below with
  | nil => exact Or.inl rfl
  | cons next below =>
    right
    -- the next line starts behind this one
    have hnext : LineAt (lines text) (above.flatten.length + line.length) next := by
      refine ⟨above ++ [line], below, by rw [hlines, List.append_assoc]; rfl, ?_⟩
      rw [List.flatten_append, List.length_append, List.flatten_singleton]
    obtain ⟨-, hzero | ⟨c, hc, hbreak, -⟩⟩ := startsLine_iff.mpr ⟨next, hnext⟩
    · omega
    · refine ⟨c, ?_, hbreak⟩
      rw [Option.mem_def, List.getLast?_eq_getElem?, ← hc, htext, Nat.add_sub_assoc hpos,
        List.getElem?_append_right (Nat.le_add_right _ _), Nat.add_sub_cancel_left,
        List.getElem?_append_left (by omega)]

/-- Two characters of which the first breaks no line are found in the text where they are found in a
line. -/
theorem LineAt.take_two {c d : Char} (hc : isLineBreak c = false) {i : Nat} (hi : i < line.length) :
    (text.drop (start + i)).take 2 = [c, d] ↔ (line.drop i).take 2 = [c, d] := by
  obtain ⟨rest, hdrop, hrest⟩ := h.exists_drop_eq
  have hsplit : text.drop (start + i) = line.drop i ++ rest := by
    rw [← List.drop_drop, hdrop, List.drop_append_of_le_length hi.le]
  rcases hrest with rfl | ⟨e, he, hbreak⟩
  · rw [hsplit, List.append_nil]
  · have hlast : (line.drop i).getLast? = some e := by
      rw [List.getLast?_drop, if_neg (by omega)]
      exact he
    rw [hsplit]
    match hline : line.drop i with
    | [] => exact absurd hlast (by simp [hline])
    | [f] =>
      -- the last character of the line is the line break
      obtain rfl : f = e := by simpa [hline] using hlast
      have hne : f ≠ c := by
        rintro rfl
        exact absurd (hbreak.symm.trans hc) (by decide)
      refine iff_of_false (fun heq => ?_) (by simp)
      have hhead := congrArg List.head? heq
      simp [hne] at hhead
    | f :: g :: more => rfl

end LineAt

end Text

namespace Scan

open Text

/-! ### One line -/

theorem not_isBlank_arrow : isBlank '=' = false ∧ isBlank '>' = false := by decide

theorem arrow_isPrefixOf_iff {text : List Char} : arrow.isPrefixOf text = true ↔ text.take 2 = arrow := by
  rw [List.isPrefixOf_iff_prefix, List.prefix_iff_eq_take, eq_comm]
  rfl

theorem lt_length_of_arrow {text : List Char} {i : Nat} (h : (text.drop i).take 2 = arrow) :
    i < text.length := by
  by_contra hlong
  rw [List.drop_of_length_le (by omega)] at h
  exact absurd h (by simp [arrow])

/-- The arrow of a line stands behind blanks only. -/
theorem arrowIndent?_eq_some_iff {line : List Char} {i : Nat} :
    arrowIndent? line = some i ↔
      (∀ c ∈ line.take i, isBlank c = true) ∧ (line.drop i).take 2 = arrow := by
  rw [arrowIndent?_eq]
  constructor
  · intro h
    split at h
    next hprefix =>
      obtain rfl := Option.some_inj.mp h
      have hsplit := List.takeWhile_append_dropWhile (p := isBlank) (l := line)
      have htake : line.take (line.takeWhile isBlank).length = line.takeWhile isBlank :=
        (List.prefix_iff_eq_take.mp (List.takeWhile_prefix isBlank)).symm
      have hdrop : (line.takeWhile isBlank ++ line.dropWhile isBlank).drop
          (line.takeWhile isBlank).length = line.dropWhile isBlank := List.drop_left
      rw [hsplit] at hdrop
      rw [htake, hdrop, ← arrow_isPrefixOf_iff]
      exact ⟨fun c hc => List.mem_takeWhile_imp hc, hprefix⟩
    next => exact absurd h (by simp)
  · rintro ⟨hblank, harrow⟩
    have hlength : (line.take i).length = i := List.length_take_of_le (lt_length_of_arrow harrow).le
    obtain ⟨rest, hrest⟩ : ∃ rest, line.drop i = '=' :: rest := by
      match hline : line.drop i with
      | [] => exact absurd harrow (by simp [hline, arrow])
      | c :: rest =>
        rw [hline] at harrow
        exact ⟨rest, by rw [(List.cons.inj harrow).1]⟩
    have hneg : ¬ isBlank '=' = true := by simp [not_isBlank_arrow.1]
    have htake : line.takeWhile isBlank = line.take i := by
      conv_lhs => rw [← List.take_append_drop i line, List.takeWhile_append_of_pos hblank, hrest,
        List.takeWhile_cons_of_neg hneg, List.append_nil]
    have hdrop : line.dropWhile isBlank = line.drop i := by
      conv_lhs => rw [← List.take_append_drop i line, List.dropWhile_append_of_pos hblank, hrest,
        List.dropWhile_cons_of_neg hneg]
      exact hrest.symm
    rw [htake, hdrop, arrow_isPrefixOf_iff.mpr harrow, if_pos rfl, hlength]

/-- The first place of an arrow in a text. -/
def FirstArrow (text : List Char) (i : Nat) : Prop :=
  arrow <+: text.drop i ∧ ∀ j < i, ¬ arrow <+: text.drop j

theorem FirstArrow.unique {text : List Char} {i j : Nat} (hi : FirstArrow text i)
    (hj : FirstArrow text j) : i = j := by
  rcases Nat.lt_trichotomy i j with hlt | heq | hlt
  · exact absurd hi.1 (hj.2 i hlt)
  · exact heq
  · exact absurd hj.1 (hi.2 j hlt)

theorem firstArrow_of_arrowIndent? {text : List Char} {i : Nat} (h : arrowIndent? text = some i) :
    FirstArrow text i := by
  obtain ⟨hblank, harrow⟩ := arrowIndent?_eq_some_iff.mp h
  refine ⟨List.isPrefixOf_iff_prefix.mp (arrow_isPrefixOf_iff.mpr harrow), fun j hj hprefix => ?_⟩
  -- an arrow further to the front would begin with a blank
  obtain ⟨rest, hrest⟩ := hprefix
  have hget : text[j]? = some '=' := by
    rw [← List.head?_drop, ← hrest]
    rfl
  have hmem : '=' ∈ text.take i := by
    refine List.mem_of_getElem? (i := j) ?_
    rw [List.getElem?_take, if_pos hj, hget]
  exact absurd (hblank _ hmem) (by simp [not_isBlank_arrow.1])

/-- Stripping drops no part of an arrow. -/
theorem arrow_prefix_strip_iff {line : List Char} :
    arrow <+: strip line ↔ arrow <+: line.dropWhile isBlank := by
  refine ⟨fun h => h.trans trimBoth_prefix, ?_⟩
  rintro ⟨rest, hrest⟩
  have hneg : ¬ isBlank '>' = true := by simp [not_isBlank_arrow.2]
  -- blanks are dropped from behind as far as the arrow at most
  have hback : (line.dropWhile isBlank).reverse.dropWhile isBlank =
      rest.reverse.dropWhile isBlank ++ arrow.reverse := by
    rw [← hrest, List.reverse_append, List.dropWhile_append]
    split
    next hnil =>
      rw [List.isEmpty_iff.mp hnil]
      exact List.dropWhile_cons_of_neg hneg
    next => rfl
  rw [strip, trimBoth, hback, List.reverse_append, List.reverse_reverse]
  exact List.prefix_append _ _

/-- The arrow of a line that begins with one once it is stripped is the first in the line as it is. -/
theorem arrowIndent?_eq_some_iff_strip {line : List Char} {i : Nat} :
    arrowIndent? line = some i ↔ arrow <+: strip line ∧ FirstArrow line i := by
  have hdecides : (∃ j, arrowIndent? line = some j) ↔ arrow <+: strip line := by
    rw [arrow_prefix_strip_iff, ← List.isPrefixOf_iff_prefix, arrowIndent?_eq]
    split <;> simp [*]
  constructor
  · exact fun h => ⟨hdecides.mp ⟨i, h⟩, firstArrow_of_arrowIndent? h⟩
  · rintro ⟨hstrip, hfirst⟩
    obtain ⟨j, hj⟩ := hdecides.mpr hstrip
    rw [hj, hfirst.unique (firstArrow_of_arrowIndent? hj)]

/-! ### All lines -/

/-- An arrow stands at an offset, and before it in its line nothing but blanks. -/
structure OpensLine (text : List Char) (offset : Nat) : Prop where
  arrow : (text.drop offset).take 2 = ['=', '>']
  indent : ∃ start line, LineAt (lines text) start line ∧ start ≤ offset ∧
    offset < start + line.length ∧ ∀ c ∈ line.take (offset - start), isBlank c = true

theorem mem_arrowOffsets {ls : List (List Char)} {i : Nat} :
    i ∈ arrowOffsets true ls ↔
      ∃ start line indent, LineAt ls start line ∧ arrowIndent? line = some indent ∧
        i = start + indent := by
  induction ls generalizing i with
  | nil => exact iff_of_false (by simp [arrowOffsets]) fun ⟨_, _, _, h, _⟩ => lineAt_nil h
  | cons first more ih =>
    rw [arrowOffsets_cons, if_pos rfl, List.mem_append, Option.mem_toList, List.mem_map]
    constructor
    · rintro (h | ⟨j, hj, rfl⟩)
      · exact ⟨0, first, i, lineAt_cons.mpr (Or.inl ⟨rfl, rfl⟩), h, (Nat.zero_add i).symm⟩
      · obtain ⟨t, line, indent, hline, hindent, rfl⟩ := ih.mp hj
        exact ⟨_, line, indent, lineAt_cons.mpr (Or.inr ⟨t, rfl, hline⟩), hindent,
          (Nat.add_assoc _ _ _).symm⟩
    · rintro ⟨start, line, indent, hline, hindent, rfl⟩
      rcases lineAt_cons.mp hline with ⟨rfl, rfl⟩ | ⟨t, rfl, hmore⟩
      · exact Or.inl (by rw [Nat.zero_add]; exact hindent)
      · exact Or.inr ⟨t + indent, ih.mpr ⟨t, line, indent, hmore, hindent, rfl⟩,
          (Nat.add_assoc _ _ _).symm⟩

theorem mem_arrowOffsets_lines {text : List Char} {i : Nat} :
    i ∈ arrowOffsets true (lines text) ↔ OpensLine text i := by
  have hbreak : isLineBreak '=' = false := by decide
  rw [mem_arrowOffsets]
  constructor
  · rintro ⟨start, line, indent, hline, hindent, rfl⟩
    obtain ⟨hblank, harrow⟩ := arrowIndent?_eq_some_iff.mp hindent
    have hlt : indent < line.length := lt_length_of_arrow harrow
    refine ⟨(hline.take_two hbreak hlt).mpr harrow, start, line, hline, by omega, by omega, ?_⟩
    rw [Nat.add_sub_cancel_left]
    exact hblank
  · rintro ⟨harrow, start, line, hline, hle, hlt, hblank⟩
    have hoffset : i = start + (i - start) := by omega
    rw [hoffset] at harrow
    have hfound := (hline.take_two hbreak (by omega)).mp harrow
    exact ⟨start, line, i - start, hline, arrowIndent?_eq_some_iff.mpr ⟨hblank, hfound⟩, hoffset⟩

theorem arrowOffsets_ascending (text : List Char) :
    (arrowOffsets true (lines text)).Pairwise (· < ·) := by
  rw [← sweep_arrowCheck]
  exact List.pairwise_map.mpr (Check.sweep_ascending true text)

theorem arrowsFrom_append (start : Nat) (above below : List (List Char)) :
    arrowsFrom start (above ++ below) =
      arrowsFrom start above ++ arrowsFrom (start + above.flatten.length) below := by
  induction above generalizing start with
  | nil => rfl
  | cons line above ih =>
    have hstart : start + (line :: above).flatten.length =
        start + line.length + above.flatten.length := by
      rw [List.flatten_cons, List.length_append, Nat.add_assoc]
    rw [List.cons_append, arrowsFrom, arrowsFrom, ih, hstart]
    cases arrowIndent? line <;> rfl

/-- The findings on arrows are on those that nothing but blanks precedes in their line, each once, by
offset and two characters long, and on nothing else.  Whatever terminators a text has, the offset at which
the search has arrived with some of its lines is that of the next one; and a line is reported if it begins
with an arrow once it is stripped, at its first arrow. -/
theorem arrowFindings_exact (text : List Char) :
    (∃ places : List Nat, places.Pairwise (· < ·) ∧
      arrowFindings text = places.map (fun i =>
        { message := LooseText.ofString "Unexpected => at start of line"
          offset := some (i : Int)
          length := some 2 }) ∧
      ∀ i, i ∈ places ↔ OpensLine text i) ∧
    (∀ start, (∃ line, LineAt (lines text) start line) ↔ StartsLine text start) ∧
    (∀ above below, lines text = above ++ below →
      text = above.flatten ++ below.flatten ∧
      arrowFindings text = arrowsFrom 0 above ++ arrowsFrom above.flatten.length below) ∧
    ∀ line i, arrowIndent? line = some i ↔ ['=', '>'] <+: strip line ∧ FirstArrow line i := by
  refine ⟨⟨arrowOffsets true (lines text), arrowOffsets_ascending text, ?_,
    fun i => mem_arrowOffsets_lines⟩, fun start => startsLine_iff.symm, fun above below h => ⟨?_, ?_⟩,
    fun line i => arrowIndent?_eq_some_iff_strip⟩
  · rw [arrowFindings, arrowsFrom_eq]
    exact List.map_congr_left fun i _ => by rw [Nat.zero_add]; rfl
  · rw [← List.flatten_append, ← h, flatten_lines]
  · rw [arrowFindings, h, arrowsFrom_append, Nat.zero_add]

end Scan

end AnalyzerBridge
