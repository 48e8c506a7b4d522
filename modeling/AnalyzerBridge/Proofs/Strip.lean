/-
Stripped lines.

* `strip_eq_nil_iff`, `strip_ne_nil` — only blanks leave nothing behind;
* `isBlank_getLast_strip` — what is left does not end in a blank;
* `strip_of_ends` — a text that neither begins nor ends with a blank is left alone;
* `infix_of_mem_bareLines` — a line without its terminator is a piece of the text;
* `bareLines_intercalate` — lines joined by line feeds are the lines again.
-/
import AnalyzerBridge.Proofs.Cursor

namespace AnalyzerBridge.Text

/-! ### Both ends -/

section Trim

variable {p : Char → Bool} {text : List Char}

theorem trimBoth_eq_nil_iff : trimBoth p text = [] ↔ ∀ c ∈ text, p c = true := by
  rw [trimBoth, List.reverse_eq_nil_iff, List.dropWhile_eq_nil_iff]
  constructor
  · intro h c hc
    -- a character of the front is dropped because it satisfies `p`, the others were seen from behind
    rw [← List.takeWhile_append_dropWhile (p := p) (l := text)] at hc
    rcases List.mem_append.mp hc with hc | hc
    · exact List.mem_takeWhile_imp hc
    · exact h c (List.mem_reverse.mpr hc)
  · intro h c hc
    exact h c ((List.dropWhile_suffix p).subset (List.mem_reverse.mp hc))

theorem trimBoth_prefix : trimBoth p text <+: text.dropWhile p :=
  List.reverse_suffix.mp (by rw [trimBoth, List.reverse_reverse]; exact List.dropWhile_suffix p)

theorem trimBoth_infix : trimBoth p text <:+: text :=
  trimBoth_prefix.isInfix.trans (List.dropWhile_suffix p).isInfix

theorem not_of_getLast?_trimBoth {c : Char} (h : (trimBoth p text).getLast? = some c) :
    p c = false := by
  have hhead := List.head?_dropWhile_not p (text.dropWhile p).reverse
  rw [trimBoth, List.getLast?_reverse] at h
  rw [h] at hhead
  exact hhead

theorem trimBoth_of_ends (hhead : ∀ c, text.head? = some c → p c = false)
    (hlast : ∀ c, text.getLast? = some c → p c = false) : trimBoth p text = text := by
  -- nothing is dropped from a list whose first element does not satisfy `p`
  have hdrop : ∀ l : List Char, (∀ c, l.head? = some c → p c = false) → l.dropWhile p = l := by
    intro l hl
    cases l with
    | nil => rfl
    | cons c rest => exact List.dropWhile_cons_of_neg (by rw [hl c rfl]; exact Bool.false_ne_true)
  rw [trimBoth, hdrop text hhead, hdrop text.reverse, List.reverse_reverse]
  rwa [List.head?_reverse]

end Trim

variable {text : List Char}

theorem strip_eq_nil_iff : strip text = [] ↔ ∀ c ∈ text, isBlank c = true :=
  trimBoth_eq_nil_iff

theorem strip_ne_nil {c : Char} (hlast : text.getLast? = some c) (hc : isBlank c = false) :
    strip text ≠ [] := fun hnil => by
  have hblank := strip_eq_nil_iff.mp hnil c (List.mem_of_getLast? hlast)
  exact absurd (hblank.symm.trans hc) (by decide)

theorem strip_infix (text : List Char) : strip text <:+: text :=
  trimBoth_infix

theorem isBlank_head_strip {c : Char} (h : (strip text).head? = some c) : isBlank c = false := by
  have hfront : strip text <+: text.dropWhile isBlank := trimBoth_prefix
  obtain ⟨rest, hrest⟩ := hfront
  have hhead := List.head?_dropWhile_not isBlank text
  rw [← hrest, List.head?_append, h] at hhead
  exact hhead

theorem isBlank_getLast_strip {c : Char} (h : (strip text).getLast? = some c) :
    isBlank c = false :=
  not_of_getLast?_trimBoth h

theorem strip_of_ends (hhead : ∀ c, text.head? = some c → isBlank c = false)
    (hlast : ∀ c, text.getLast? = some c → isBlank c = false) : strip text = text :=
  trimBoth_of_ends hhead hlast

theorem strip_cons_of_isBlank {c : Char} (h : isBlank c = true) (rest : List Char) :
    strip (c :: rest) = strip rest := by
  rw [strip, strip, trimBoth, trimBoth, List.dropWhile_cons_of_pos h]

/-! ### Lines without their terminators -/

/-- Nothing but the end of a line is dropped from it. -/
theorem filter_prefix_of_breaks {line : List Char}
    (h : ∀ front c d more, line = front ++ c :: d :: more → isLineBreak c = true → c = '\r' ∧ d = '\n') :
    (line.filter fun c => !isLineBreak c) <+: line := by
  induction line with
  | nil => exact List.prefix_rfl
  | cons c rest ih =>
    have hrest := ih fun front d e more hsplit => h (c :: front) d e more (by rw [hsplit]; rfl)
    cases hc : isLineBreak c with
    | false =>
      rw [List.filter_cons_of_pos (by simp [hc])]
      exact List.prefix_cons_inj c |>.mpr hrest
    | true =>
      rw [List.filter_cons_of_neg (by simp [hc])]
      -- a terminator is the last character, or a carriage return before the last one
      match rest, h with
      | [], _ => exact List.nil_prefix
      | [d], h =>
        obtain ⟨-, rfl⟩ := h [] c d [] rfl hc
        rw [List.filter_cons_of_neg (by decide)]
        exact List.nil_prefix
      | d :: e :: more, h =>
        obtain ⟨-, rfl⟩ := h [] c d (e :: more) rfl hc
        exact absurd (h [c] '\n' e more rfl isLineBreak_lineFeed).1 (by decide)

/-- A line without its terminator is a piece of the text. -/
theorem infix_of_mem_bareLines {line : List Char} (h : line ∈ bareLines text) : line <:+: text := by
  obtain ⟨ended, hended, rfl⟩ := List.mem_map.mp h
  have hpiece : ended <:+: text := by
    rw [← flatten_lines text]
    exact List.infix_of_mem_flatten hended
  exact (filter_prefix_of_breaks fun _ _ _ _ => break_in_line hended).isInfix.trans hpiece

theorem bareLines_append_lineFeed {line : List Char} (h : ∀ c ∈ line, isLineBreak c = false)
    (rest : List Char) : bareLines (line ++ '\n' :: rest) = line :: bareLines rest := by
  have hends : EndsLine ['\n'] := fun c hc => (Option.some_inj.mp hc).symm
  have hlines : lines ('\n' :: rest) = ['\n'] :: lines rest := lines_append hends rest
  have hfilter : (line ++ ['\n']).filter (fun c => !isLineBreak c) = line := by
    rw [List.filter_append, List.filter_eq_self.mpr fun c hc => by simp [h c hc],
      List.filter_cons_of_neg (by decide), List.filter_nil, List.append_nil]
  rw [bareLines, lines_unbroken h hlines, List.map_cons, hfilter, bareLines]

/-- Lines that are joined by line feeds are the lines of the whole. -/
theorem bareLines_intercalate {parts : List (List Char)} (hne : ∀ line ∈ parts, line ≠ [])
    (h : ∀ line ∈ parts, ∀ c ∈ line, isLineBreak c = false) :
    bareLines (['\n'].intercalate parts) = parts := by
  induction parts with
  | nil => rfl
  | cons line parts ih =>
    obtain ⟨hline, hparts⟩ := List.forall_mem_cons.mp h
    obtain ⟨hnonempty, hrest⟩ := List.forall_mem_cons.mp hne
    cases parts with
    | nil => rw [List.intercalate_singleton, bareLines_of_unbroken hnonempty hline]
    | cons next parts =>
      rw [List.intercalate_cons_cons, List.append_assoc, List.singleton_append,
        bareLines_append_lineFeed hline, ih hrest hparts]

end AnalyzerBridge.Text
