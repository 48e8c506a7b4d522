/-
Lines and newlines.

* `flatten_lines` — the lines of a text concatenate to it;
* `newlineRec` — induction on a text newline by newline: `\r\n`, a lone `\r`, or any
  other character comes first;
* `unifyNewlines_cons`, `unifyNewlines_pair`, `unifyNewlines_return` — how newlines are
  unified, one equation for each case;
* `length_unifyNewlines_eq_iff` — only `\r\n` makes a text shorter;
* `unifyNewlines_append` — a text may be unified in pieces, unless it is cut inside a
  `\r\n`;
* `unifiedOffset` — where a place in a text is once its newlines are unified.
-/
import AnalyzerBridge.Text.Line
import Mathlib.Data.List.Infix

namespace AnalyzerBridge.Text

/-! ### Lines -/

theorem lines_cons (c : Char) (rest : List Char) : lines (c :: rest) = consLine c (lines rest) := rfl

theorem consLine_cons (c : Char) (line : List Char) (more : List (List Char)) :
    consLine c (line :: more) =
      if isLineBreak c && !(c == '\r' && line.head? == some '\n') then [c] :: line :: more
      else (c :: line) :: more := rfl

theorem flatten_consLine (c : Char) (following : List (List Char)) :
    (consLine c following).flatten = c :: following.flatten := by
  cases following with
  | nil => rfl
  | cons line more =>
    rw [consLine_cons]
    split <;> rfl

/-- The lines of a text concatenate to it. -/
theorem flatten_lines (text : List Char) : (lines text).flatten = text := by
  induction text with
  | nil => rfl
  | cons c rest ih => rw [lines_cons, flatten_consLine, ih]

theorem ne_nil_of_mem_lines {text line : List Char} (h : line ∈ lines text) : line ≠ [] := by
  induction text generalizing line with
  | nil => exact absurd h (by simp [lines])
  | cons c rest ih =>
    rw [lines_cons] at h
    cases hlines : lines rest with
    | nil =>
      rw [hlines] at h
      obtain rfl := List.mem_singleton.mp h
      exact List.cons_ne_nil _ _
    | cons first more =>
      rw [hlines, consLine_cons] at h
      rw [hlines] at ih
      split at h
      · rcases List.mem_cons.mp h with rfl | hmem
        · exact List.cons_ne_nil _ _
        · exact ih hmem
      · rcases List.mem_cons.mp h with rfl | hmem
        · exact List.cons_ne_nil _ _
        · exact ih (List.mem_cons_of_mem _ hmem)

/-- A line that begins with a line feed is that line feed. -/
theorem eq_lineFeed_of_head? {text line : List Char} {more : List (List Char)}
    (h : lines text = line :: more) (hhead : line.head? = some '\n') : line = ['\n'] := by
  cases text with
  | nil => exact absurd h (by simp [lines])
  | cons c rest =>
    have hc : c = '\n' := by
      have hflat := flatten_lines (c :: rest)
      rw [h, List.flatten_cons] at hflat
      cases line with
      | nil => exact absurd hhead (by simp)
      | cons d line =>
        obtain rfl : d = '\n' := by simpa using hhead
        exact (List.cons.inj hflat).1.symm
    subst hc
    rw [lines_cons] at h
    cases hlines : lines rest with
    | nil =>
      rw [hlines] at h
      exact (List.cons.inj h).1.symm
    | cons first following =>
      rw [hlines, consLine_cons, if_pos (by simp [isLineBreak])] at h
      exact (List.cons.inj h).1.symm

/-! ### Unified newlines -/

variable {c : Char} {rest : List Char}

theorem unifyStep_snd (text : List Char) :
    (text.foldr unifyStep ([], false)).2 = (text.head? == some '\n') := by
  cases text with
  | nil => rfl
  | cons c rest =>
    rw [List.foldr_cons, unifyStep]
    by_cases hreturn : c = '\r'
    · subst hreturn
      rfl
    · rw [if_neg (by simpa using hreturn)]
      simp

@[simp] theorem unifyNewlines_nil : unifyNewlines [] = [] := rfl

theorem unifyNewlines_cons (h : c ≠ '\r') :
    unifyNewlines (c :: rest) = c :: unifyNewlines rest := by
  rw [unifyNewlines, List.foldr_cons, unifyStep, if_neg (by simpa using h)]
  rfl

theorem unifyNewlines_return (h : rest.head? ≠ some '\n') :
    unifyNewlines ('\r' :: rest) = '\n' :: unifyNewlines rest := by
  rw [unifyNewlines, List.foldr_cons, unifyStep, if_pos (by decide), unifyStep_snd,
    if_neg (by simpa using h)]
  rfl

theorem unifyNewlines_pair : unifyNewlines ('\r' :: '\n' :: rest) = '\n' :: unifyNewlines rest := rfl

/-- Induction on a text newline by newline. -/
@[elab_as_elim]
theorem newlineRec {motive : List Char → Prop} (nil : motive [])
    (pair : ∀ rest, motive rest → motive ('\r' :: '\n' :: rest))
    (lone : ∀ rest, rest.head? ≠ some '\n' → motive rest → motive ('\r' :: rest))
    (other : ∀ c rest, c ≠ '\r' → motive rest → motive (c :: rest)) (text : List Char) :
    motive text := by
  -- a pair takes two characters at once, so the induction is on the length
  induction hlength : text.length using Nat.strong_induction_on generalizing text with
  | _ n ih =>
    subst hlength
    cases text with
    | nil => exact nil
    | cons c rest =>
      have hrest : motive rest := ih rest.length (by simp) rest rfl
      by_cases hc : c = '\r'
      · subst hc
        cases rest with
        | nil => exact lone [] (by simp) hrest
        | cons d more =>
          by_cases hd : d = '\n'
          · subst hd
            exact pair more (ih more.length (by rw [List.length_cons, List.length_cons]; omega) more rfl)
          · exact lone (d :: more) (by simpa using hd) hrest
      · exact other c rest hc hrest

theorem return_notMem_unifyNewlines (text : List Char) : '\r' ∉ unifyNewlines text := by
  induction text using newlineRec with
  | nil => simp
  | pair rest ih => simpa [unifyNewlines_pair] using ih
  | lone rest hhead ih => simpa [unifyNewlines_return hhead] using ih
  | other c rest hc ih =>
    rw [unifyNewlines_cons hc, List.mem_cons]
    rintro (rfl | hmem)
    · exact hc rfl
    · exact ih hmem

theorem length_unifyNewlines_le (text : List Char) :
    (unifyNewlines text).length ≤ text.length := by
  induction text using newlineRec with
  | nil => simp
  | pair rest ih =>
    rw [unifyNewlines_pair, List.length_cons, List.length_cons, List.length_cons]
    omega
  | lone rest hhead ih =>
    rw [unifyNewlines_return hhead, List.length_cons, List.length_cons]
    omega
  | other c rest hc ih =>
    rw [unifyNewlines_cons hc, List.length_cons, List.length_cons]
    omega

/-- Only a carriage return before a line feed makes a text shorter. -/
theorem length_unifyNewlines_eq_iff (text : List Char) :
    (unifyNewlines text).length = text.length ↔ ¬ ['\r', '\n'] <:+: text := by
  induction text using newlineRec with
  | nil => simp
  | pair rest ih =>
    have hle := length_unifyNewlines_le rest
    rw [unifyNewlines_pair, List.length_cons, List.length_cons, List.length_cons]
    refine ⟨fun h => by omega, fun h => absurd ⟨[], rest, rfl⟩ h⟩
  | lone rest hhead ih =>
    rw [unifyNewlines_return hhead, List.length_cons, List.length_cons, Nat.add_right_cancel_iff, ih,
      not_iff_not, List.infix_cons_iff]
    refine ⟨Or.inr, fun h => h.resolve_left ?_⟩
    rintro ⟨more, hmore⟩
    obtain ⟨-, rfl⟩ := List.cons.inj hmore
    exact hhead rfl
  | other c rest hc ih =>
    rw [unifyNewlines_cons hc, List.length_cons, List.length_cons, Nat.add_right_cancel_iff, ih,
      not_iff_not, List.infix_cons_iff]
    refine ⟨Or.inr, fun h => h.resolve_left ?_⟩
    rintro ⟨more, hmore⟩
    exact hc (List.cons.inj hmore).1.symm

/-- A text may be unified in pieces if no line feed is cut off. -/
theorem unifyNewlines_append (front : List Char) {back : List Char} (h : back.head? ≠ some '\n') :
    unifyNewlines (front ++ back) = unifyNewlines front ++ unifyNewlines back := by
  induction front using newlineRec with
  | nil => rfl
  | pair rest ih =>
    rw [unifyNewlines_pair, List.cons_append, List.cons_append, unifyNewlines_pair, ih,
      List.cons_append]
  | lone rest hhead ih =>
    -- the return may be the last character of the front
    have hnext : (rest ++ back).head? ≠ some '\n' := by
      cases rest with
      | nil => exact h
      | cons c rest => exact hhead
    rw [unifyNewlines_return hhead, List.cons_append, unifyNewlines_return hnext, ih,
      List.cons_append]
  | other c rest hc ih =>
    rw [unifyNewlines_cons hc, List.cons_append, unifyNewlines_cons hc, ih, List.cons_append]

theorem head?_unifyNewlines (text : List Char) :
    (unifyNewlines text).head? = text.head?.map fun c => if c = '\r' then '\n' else c := by
  cases text using newlineRec with
  | nil => rfl
  | pair rest => rfl
  | lone rest hhead => rw [unifyNewlines_return hhead]; rfl
  | other c rest hc =>
    rw [unifyNewlines_cons hc, List.head?_cons, List.head?_cons, Option.map_some, if_neg hc]

theorem length_unifyNewlines_pos {text : List Char} (h : 0 < text.length) :
    0 < (unifyNewlines text).length := by
  obtain ⟨c, rest, rfl⟩ := List.exists_cons_of_length_pos h
  have hhead := head?_unifyNewlines (c :: rest)
  obtain ⟨unified, hunified⟩ := List.head?_eq_some_iff.mp hhead
  rw [hunified]
  exact Nat.succ_pos _

/-- What is no newline stays where it is. -/
theorem unifyNewlines_eq_cons_iff {text unified : List Char} (h : c ≠ '\n') :
    unifyNewlines text = c :: unified ↔
      c ≠ '\r' ∧ ∃ rest, text = c :: rest ∧ unifyNewlines rest = unified := by
  constructor
  · intro hunify
    have hmem : c ∈ unifyNewlines text := by
      rw [hunify]
      exact List.mem_cons_self
    have hc : c ≠ '\r' := by
      rintro rfl
      exact return_notMem_unifyNewlines text hmem
    have hhead := head?_unifyNewlines text
    rw [hunify, List.head?_cons] at hhead
    obtain ⟨d, hd, hcd⟩ := Option.map_eq_some_iff.mp hhead.symm
    obtain ⟨rest, rfl⟩ := List.head?_eq_some_iff.mp hd
    -- the one character that changes becomes a line feed
    by_cases hreturn : d = '\r'
    · rw [if_pos hreturn] at hcd
      exact absurd hcd.symm h
    · rw [if_neg hreturn] at hcd
      subst hcd
      rw [unifyNewlines_cons hc] at hunify
      exact ⟨hc, rest, rfl, (List.cons.inj hunify).2⟩
  · rintro ⟨hc, rest, rfl, rfl⟩
    exact unifyNewlines_cons hc

/-- A piece of a text without newlines stays where it is. -/
theorem unifyNewlines_eq_append_iff {text unified : List Char} (front : List Char)
    (h : ∀ c ∈ front, c ≠ '\n' ∧ c ≠ '\r') :
    unifyNewlines text = front ++ unified ↔
      ∃ rest, text = front ++ rest ∧ unifyNewlines rest = unified := by
  induction front generalizing text with
  | nil => simp
  | cons c front ih =>
    obtain ⟨hfeed, hreturn⟩ := h c List.mem_cons_self
    have hfront := fun text => @ih text fun d hd => h d (List.mem_cons_of_mem _ hd)
    rw [List.cons_append, unifyNewlines_eq_cons_iff hfeed]
    constructor
    · rintro ⟨-, rest, rfl, hrest⟩
      obtain ⟨back, rfl, hback⟩ := (hfront rest).mp hrest
      exact ⟨back, rfl, hback⟩
    · rintro ⟨back, rfl, hback⟩
      exact ⟨hreturn, front ++ back, rfl, (hfront _).mpr ⟨back, rfl, hback⟩⟩

theorem dropWhile_unifyNewlines {p : Char → Bool} (hreturn : p '\r' = false) (hfeed : p '\n' = false)
    (text : List Char) : (unifyNewlines text).dropWhile p = unifyNewlines (text.dropWhile p) := by
  have hkeep : ∀ {d : Char} (l : List Char), p d = false → (d :: l).dropWhile p = d :: l :=
    fun l hd => List.dropWhile_cons_of_neg (by simp [hd])
  induction text using newlineRec with
  | nil => rfl
  | pair rest ih => rw [unifyNewlines_pair, hkeep _ hfeed, hkeep _ hreturn, unifyNewlines_pair]
  | lone rest hhead ih =>
    rw [unifyNewlines_return hhead, hkeep _ hfeed, hkeep _ hreturn, unifyNewlines_return hhead]
  | other c rest hc ih =>
    rw [unifyNewlines_cons hc]
    cases hp : p c with
    | true => rw [List.dropWhile_cons_of_pos hp, List.dropWhile_cons_of_pos hp, ih]
    | false => rw [hkeep _ hp, hkeep _ hp, unifyNewlines_cons hc]

/-! ### Offsets -/

/-- Where a place in a text is once its newlines are unified. -/
def unifiedOffset (text : List Char) (offset : Nat) : Nat :=
  (unifyNewlines (text.take offset)).length

theorem unifiedOffset_return (h : rest.head? ≠ some '\n') (i : Nat) :
    unifiedOffset ('\r' :: rest) (i + 1) = unifiedOffset rest i + 1 := by
  have htake : (rest.take i).head? ≠ some '\n' := by
    cases i with
    | zero => simp
    | succ i =>
      cases rest with
      | nil => simp
      | cons c rest => exact h
  rw [unifiedOffset, List.take_succ_cons, unifyNewlines_return htake, List.length_cons,
    unifiedOffset]

theorem unifiedOffset_cons (h : c ≠ '\r') (i : Nat) :
    unifiedOffset (c :: rest) (i + 1) = unifiedOffset rest i + 1 := by
  rw [unifiedOffset, List.take_succ_cons, unifyNewlines_cons h, List.length_cons, unifiedOffset]

theorem unifiedOffset_length (text : List Char) :
    unifiedOffset text text.length = (unifyNewlines text).length := by
  rw [unifiedOffset, List.take_length]

/-- A character that is no newline keeps its width. -/
theorem unifiedOffset_succ {before after : List Char} (hreturn : c ≠ '\r') (hfeed : c ≠ '\n') :
    unifiedOffset (before ++ c :: after) (before.length + 1) =
      unifiedOffset (before ++ c :: after) before.length + 1 := by
  have hfront : (before ++ c :: after).take (before.length + 1) = before ++ [c] := by
    rw [List.take_length_add_append, List.take_succ_cons, List.take_zero]
  rw [unifiedOffset, unifiedOffset, hfront, List.take_left, unifyNewlines_append _ (by simpa using hfeed),
    unifyNewlines_cons hreturn, List.length_append]
  rfl

/-- A place in a text stays where it is exactly if no `\r\n` is before it. -/
theorem unifiedOffset_eq_self_iff {text : List Char} {offset : Nat} (h : offset ≤ text.length) :
    unifiedOffset text offset = offset ↔ ¬ ['\r', '\n'] <:+: text.take offset := by
  have hlength : (text.take offset).length = offset := by
    rw [List.length_take, Nat.min_eq_left h]
  rw [← length_unifyNewlines_eq_iff, hlength, unifiedOffset]

end AnalyzerBridge.Text
