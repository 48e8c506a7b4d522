/-
Which word stands at a cursor.

A cursor stands in a run of word characters, possibly an empty one.  The word starts at the
first character of the run that may begin an identifier, as long as that is left of the
cursor, and ends where the run does.

* `wordBefore_cons`, `wordBefore_spec` — what is read to the left of the cursor is the
  leftmost identifier that reaches up to it;
* `MaximalRun.isIdentifier_iff` — such an identifier starts at a letter or an underscore of
  the run;
* `MaximalRun.move` — every cursor in a run has the same run;
* `wordAt_exact` — hence the word, and that all cursors behind its start have it.

Design notes: a run is given by its two ends, so that an empty one has a place.  It is
maximal among all runs that hold the cursor, whatever stands around it.
-/
import AnalyzerBridge.Proofs.Offset
import AnalyzerBridge.Proofs.Cursor
import Mathlib.Data.List.DropRight

namespace AnalyzerBridge

namespace Symbol

open Text

/-! ### Identifiers -/

/-- A letter or the underscore. -/
def isInitial (c : Char) : Bool :=
  ('a' ≤ c && c ≤ 'z') || ('A' ≤ c && c ≤ 'Z') || c == '_'

/-- A letter or the underscore, and then word characters. -/
def IsIdentifier (word : List Char) : Prop :=
  ∃ c rest, word = c :: rest ∧ isInitial c = true ∧ ∀ d ∈ rest, isAsciiWordChar d = true

theorem isAsciiWordChar_eq (c : Char) : isAsciiWordChar c = (isInitial c || isAsciiDigit c) := by
  rw [isAsciiWordChar, isInitial, isAsciiDigit, Bool.or_right_comm]

theorem isAsciiDigit_of_isInitial {c : Char} (hc : isInitial c = true) : isAsciiDigit c = false := by
  rw [Bool.eq_false_iff]
  intro hdigit
  rw [isAsciiDigit, Bool.and_eq_true, decide_eq_true_eq, decide_eq_true_eq, Char.le_def,
    Char.le_def] at hdigit
  simp only [isInitial, Bool.or_eq_true, Bool.and_eq_true, decide_eq_true_eq, beq_iff_eq,
    Char.le_def] at hc
  rcases hc with (⟨hc, -⟩ | ⟨hc, -⟩) | rfl
  · exact absurd (UInt32.le_trans hc hdigit.2) (by decide)
  · exact absurd (UInt32.le_trans hc hdigit.2) (by decide)
  · exact absurd hdigit.2 (by decide)

theorem isAsciiWordChar_of_isInitial {c : Char} (hc : isInitial c = true) :
    isAsciiWordChar c = true := by
  rw [isAsciiWordChar_eq, hc, Bool.true_or]

theorem IsIdentifier.isAsciiWordChar {word : List Char} (h : IsIdentifier word) :
    ∀ c ∈ word, isAsciiWordChar c = true := by
  obtain ⟨c, rest, rfl, hc, hrest⟩ := h
  exact List.forall_mem_cons.mpr ⟨isAsciiWordChar_of_isInitial hc, hrest⟩

theorem isIdentifier_cons_iff {c : Char} {rest : List Char} :
    IsIdentifier (c :: rest) ↔ isInitial c = true ∧ ∀ d ∈ rest, isAsciiWordChar d = true := by
  constructor
  · rintro ⟨d, more, h, hd, hmore⟩
    obtain ⟨rfl, rfl⟩ := List.cons.inj h
    exact ⟨hd, hmore⟩
  · rintro ⟨hc, hrest⟩
    exact ⟨c, rest, rfl, hc, hrest⟩

theorem not_isIdentifier_nil : ¬ IsIdentifier [] := by
  rintro ⟨c, rest, h, -⟩
  exact absurd h (by simp)

/-! ### To the left of the cursor -/

theorem rtakeWhile_cons_of_pos {p : Char → Bool} {rest : List Char} (hrest : ∀ d ∈ rest, p d = true)
    (c : Char) : (c :: rest).rtakeWhile p = if p c = true then c :: rest else rest := by
  have hreverse : ∀ d ∈ rest.reverse, p d = true := fun d hd => hrest d (List.mem_reverse.mp hd)
  rw [List.rtakeWhile, List.reverse_cons, List.takeWhile_append_of_pos hreverse, List.takeWhile_cons]
  split <;> simp

theorem rtakeWhile_cons_of_neg {p : Char → Bool} {rest : List Char}
    (hrest : ¬ ∀ d ∈ rest, p d = true) (c : Char) :
    (c :: rest).rtakeWhile p = rest.rtakeWhile p := by
  rw [List.rtakeWhile, List.rtakeWhile, List.reverse_cons, List.takeWhile_append, if_neg]
  intro hlength
  -- a prefix as long as the whole list is the whole list
  have hall := (List.takeWhile_prefix p).eq_of_length hlength
  refine hrest fun d hd => List.takeWhile_eq_self_iff.mp hall d (List.mem_reverse.mpr hd)

/-- The part of an identifier that ends a text is searched from the left. -/
theorem wordBefore_cons (c : Char) (rest : List Char) :
    wordBefore (c :: rest) =
      if isInitial c = true ∧ ∀ d ∈ rest, isAsciiWordChar d = true then c :: rest
      else wordBefore rest := by
  show ((c :: rest).rtakeWhile isAsciiWordChar).dropWhile isAsciiDigit =
    if isInitial c = true ∧ ∀ d ∈ rest, isAsciiWordChar d = true then c :: rest
    else (rest.rtakeWhile isAsciiWordChar).dropWhile isAsciiDigit
  by_cases hrest : ∀ d ∈ rest, isAsciiWordChar d = true
  · rw [rtakeWhile_cons_of_pos hrest, List.rtakeWhile_eq_self_iff.mpr hrest]
    by_cases hc : isInitial c = true
    · rw [if_pos (isAsciiWordChar_of_isInitial hc), if_pos ⟨hc, hrest⟩, List.dropWhile_cons_of_neg]
      rw [isAsciiDigit_of_isInitial hc]
      exact Bool.false_ne_true
    · have hnot : ¬ (isInitial c = true ∧ ∀ d ∈ rest, isAsciiWordChar d = true) := fun h => hc h.1
      rw [if_neg hnot, isAsciiWordChar_eq, Bool.eq_false_of_not_eq_true hc, Bool.false_or]
      -- a character in front is a digit, or it is not in the run at all
      split
      next hdigit => rw [List.dropWhile_cons_of_pos hdigit]
      next => rfl
  · rw [rtakeWhile_cons_of_neg hrest, if_neg fun h => hrest h.2]

/-- What is read to the left of a cursor is the leftmost identifier that reaches up to it. -/
theorem wordBefore_spec (text : List Char) :
    (wordBefore text = [] ∧ ∀ i, ¬ IsIdentifier (text.drop i)) ∨
      ∃ i, wordBefore text = text.drop i ∧ IsIdentifier (text.drop i) ∧
        ∀ j < i, ¬ IsIdentifier (text.drop j) := by
  induction text with
  | nil =>
    refine Or.inl ⟨rfl, fun i => ?_⟩
    rw [List.drop_nil]
    exact not_isIdentifier_nil
  | cons c rest ih =>
    rw [wordBefore_cons]
    by_cases hhere : isInitial c = true ∧ ∀ d ∈ rest, isAsciiWordChar d = true
    · rw [if_pos hhere]
      exact Or.inr ⟨0, rfl, isIdentifier_cons_iff.mpr hhere, fun j hj => absurd hj (Nat.not_lt_zero j)⟩
    · rw [if_neg hhere]
      -- the search goes on behind the first character
      have hzero : ¬ IsIdentifier ((c :: rest).drop 0) := fun h => hhere (isIdentifier_cons_iff.mp h)
      rcases ih with ⟨hnone, hall⟩ | ⟨i, hword, hi, hleast⟩
      · refine Or.inl ⟨hnone, fun j => ?_⟩
        cases j with
        | zero => exact hzero
        | succ j => exact hall j
      · refine Or.inr ⟨i + 1, hword, hi, fun j hj => ?_⟩
        cases j with
        | zero => exact hzero
        | succ j => exact hleast j (Nat.lt_of_succ_lt_succ hj)

/-! ### Runs of word characters -/

/-- The characters of a text from one offset up to another. -/
def stretch (text : List Char) (a b : Nat) : List Char :=
  (text.take b).drop a

/-- The stretch `[a, b)` of a text holds an offset, or ends there, and has word characters only. -/
structure InRun (text : List Char) (o a b : Nat) : Prop where
  start_le : a ≤ o
  le_stop : o ≤ b
  stop_le : b ≤ text.length
  word : ∀ c ∈ stretch text a b, isAsciiWordChar c = true

/-- The stretch is the longest of its kind. -/
structure MaximalRun (text : List Char) (o a b : Nat) : Prop extends InRun text o a b where
  maximal : ∀ a' b', InRun text o a' b' → a ≤ a' ∧ b' ≤ b

/-- The first character of the stretch `[a, o)` of a text that may begin an identifier stands at `s`. -/
structure FirstInitial (text : List Char) (a o s : Nat) : Prop where
  start_le : a ≤ s
  lt_stop : s < o
  initial : ∃ c, text[s]? = some c ∧ isInitial c = true
  first : ∀ c ∈ stretch text a s, isInitial c = false

section Stretch

variable {text : List Char} {a b i o s : Nat} {c : Char}

theorem mem_stretch : c ∈ stretch text a b ↔ ∃ i, a ≤ i ∧ i < b ∧ text[i]? = some c := by
  rw [stretch, List.mem_iff_getElem?]
  constructor
  · rintro ⟨k, hk⟩
    rw [List.getElem?_drop, List.getElem?_take] at hk
    split at hk
    next hlt => exact ⟨a + k, Nat.le_add_right a k, hlt, hk⟩
    next => exact absurd hk (by simp)
  · rintro ⟨i, ha, hb, hi⟩
    refine ⟨i - a, ?_⟩
    rw [List.getElem?_drop, Nat.add_sub_cancel' ha, List.getElem?_take_of_lt hb]
    exact hi

theorem stretch_cons (hc : text[i]? = some c) (hlt : i < o) :
    stretch text i o = c :: stretch text (i + 1) o := by
  have hget : (text.take o)[i]? = some c := by rw [List.getElem?_take_of_lt hlt, hc]
  obtain ⟨hi, rfl⟩ := List.getElem?_eq_some_iff.mp hget
  exact List.drop_eq_getElem_cons hi

theorem stretch_append (hao : a ≤ o) (hob : o ≤ b) (hb : b ≤ text.length) :
    stretch text a o ++ stretch text o b = stretch text a b := by
  have hlength : (text.take o).length = o := List.length_take_of_le (hob.trans hb)
  have hsplit : text.take b = text.take o ++ stretch text o b := by
    have htake : (text.take b).take o = text.take o := by rw [List.take_take, min_eq_left hob]
    rw [stretch, ← htake, List.take_append_drop]
  calc stretch text a o ++ stretch text o b
      = (text.take o ++ stretch text o b).drop a :=
        (List.drop_append_of_le_length (hlength.symm ▸ hao)).symm
    _ = stretch text a b := by rw [← hsplit, stretch]

end Stretch

section Run

variable {text : List Char} {a b i o p s t : Nat}

/-- Around every offset of a text there is a longest run of word characters. -/
theorem exists_maximalRun (ho : o ≤ text.length) : ∃ a b, MaximalRun text o a b := by
  have hleft : ∃ a, ∀ c ∈ stretch text a o, isAsciiWordChar c = true := by
    refine ⟨o, fun c hc => ?_⟩
    obtain ⟨i, hi, hi', -⟩ := mem_stretch.mp hc
    omega
  have hright : ∀ c ∈ stretch text o o, isAsciiWordChar c = true := by
    intro c hc
    obtain ⟨i, hi, hi', -⟩ := mem_stretch.mp hc
    omega
  have hstart : Nat.find hleft ≤ o := Nat.find_min' hleft hright
  have hstop := Nat.findGreatest_spec
    (P := fun b => ∀ c ∈ stretch text o b, isAsciiWordChar c = true) ho hright
  have hle := Nat.le_findGreatest
    (P := fun b => ∀ c ∈ stretch text o b, isAsciiWordChar c = true) ho hright
  refine ⟨Nat.find hleft, Nat.findGreatest _ text.length, ⟨hstart, hle, Nat.findGreatest_le _, ?_⟩, ?_⟩
  · intro c hc
    obtain ⟨i, hi, hi', hget⟩ := mem_stretch.mp hc
    -- the character stands on one side of the offset or on the other
    rcases Nat.lt_or_ge i o with hlt | hge
    · exact Nat.find_spec hleft c (mem_stretch.mpr ⟨i, hi, hlt, hget⟩)
    · exact hstop c (mem_stretch.mpr ⟨i, hge, hi', hget⟩)
  · intro a' b' h
    constructor
    · refine Nat.find_min' hleft fun c hc => ?_
      obtain ⟨i, hi, hi', hget⟩ := mem_stretch.mp hc
      exact h.word c (mem_stretch.mpr ⟨i, hi, hi'.trans_le h.le_stop, hget⟩)
    · refine Nat.le_findGreatest h.stop_le fun c hc => ?_
      obtain ⟨i, hi, hi', hget⟩ := mem_stretch.mp hc
      exact h.word c (mem_stretch.mpr ⟨i, h.start_le.trans hi, hi', hget⟩)

/-- Every cursor in a run has the same run. -/
theorem MaximalRun.move (h : MaximalRun text o a b) (hap : a ≤ p) (hpb : p ≤ b) :
    MaximalRun text p a b where
  start_le := hap
  le_stop := hpb
  stop_le := h.stop_le
  word := h.word
  maximal a' b' h' := by
    -- two runs with a cursor in common are one run
    have hunion : InRun text o (min a a') (max b b') := by
      refine ⟨min_le_of_left_le h.start_le, le_max_of_le_left h.le_stop,
        max_le h.stop_le h'.stop_le, fun c hc => ?_⟩
      obtain ⟨i, hi, hi', hget⟩ := mem_stretch.mp hc
      have hstart := h'.start_le
      have hstop := h'.le_stop
      by_cases hin : a ≤ i ∧ i < b
      · exact h.word c (mem_stretch.mpr ⟨i, hin.1, hin.2, hget⟩)
      · exact h'.word c (mem_stretch.mpr ⟨i, by omega, by omega, hget⟩)
    obtain ⟨ha, hb⟩ := h.maximal _ _ hunion
    omega

/-- To the right of the cursor the rest of the run is read. -/
theorem MaximalRun.takeWhile_drop (h : MaximalRun text o a b) :
    (text.drop o).takeWhile isAsciiWordChar = stretch text o b := by
  have hsplit : text.drop o = stretch text o b ++ text.drop b := by
    rw [stretch, ← List.drop_append_of_le_length, List.take_append_drop]
    rw [List.length_take_of_le h.stop_le]
    exact h.le_stop
  have hword : ∀ c ∈ stretch text o b, isAsciiWordChar c = true := by
    intro c hc
    obtain ⟨i, hi, hi', hget⟩ := mem_stretch.mp hc
    exact h.word c (mem_stretch.mpr ⟨i, h.start_le.trans hi, hi', hget⟩)
  have hend : (text.drop b).takeWhile isAsciiWordChar = [] := by
    cases hrest : text.drop b with
    | nil => rfl
    | cons c rest =>
      rw [List.takeWhile_cons_of_neg]
      intro hc
      have hget : text[b]? = some c := by rw [← List.head?_drop, hrest, List.head?_cons]
      -- one more word character would make the run longer
      have hlonger : InRun text o a (b + 1) := by
        refine ⟨h.start_le, h.le_stop.trans (Nat.le_succ b),
          (List.getElem?_eq_some_iff.mp hget).1, fun d hd => ?_⟩
        obtain ⟨i, hi, hi', hd'⟩ := mem_stretch.mp hd
        rcases Nat.lt_succ_iff_lt_or_eq.mp hi' with hlt | rfl
        · exact h.word d (mem_stretch.mpr ⟨i, hi, hlt, hd'⟩)
        · obtain rfl := Option.some_inj.mp (hget.symm.trans hd')
          exact hc
      have hlength := (h.maximal _ _ hlonger).2
      omega
  rw [hsplit, List.takeWhile_append_of_pos hword, hend, List.append_nil]

/-- An identifier that reaches up to the cursor starts at a letter or an underscore of the run. -/
theorem MaximalRun.isIdentifier_iff (h : MaximalRun text o a b) :
    IsIdentifier (stretch text i o) ↔
      a ≤ i ∧ i < o ∧ ∃ c, text[i]? = some c ∧ isInitial c = true := by
  constructor
  · intro hword
    have hword' := hword.isAsciiWordChar
    obtain ⟨c, rest, hcons, hc, -⟩ := hword
    obtain ⟨k, hik, hko, -⟩ := mem_stretch.mp (hcons ▸ List.mem_cons_self : c ∈ stretch text i o)
    have hlt : i < o := by omega
    have hget : text[i]? = some c := by
      have hhead := congrArg List.head? hcons
      rw [stretch, List.head?_drop, List.getElem?_take_of_lt hlt] at hhead
      exact hhead
    have hrun : InRun text o i o :=
      ⟨hlt.le, le_rfl, h.le_stop.trans h.stop_le, hword'⟩
    exact ⟨(h.maximal _ _ hrun).1, hlt, c, hget, hc⟩
  · rintro ⟨hai, hio, c, hget, hc⟩
    rw [stretch_cons hget hio, isIdentifier_cons_iff]
    refine ⟨hc, fun d hd => ?_⟩
    obtain ⟨k, hk, hk', hd'⟩ := mem_stretch.mp hd
    exact h.word d (mem_stretch.mpr ⟨k, by omega, hk'.trans_le h.le_stop, hd'⟩)

theorem FirstInitial.unique (h : FirstInitial text a o s) (h' : FirstInitial text a p t) : s = t := by
  have hnot : ∀ {s t o p}, FirstInitial text a o s → FirstInitial text a p t → ¬ s < t := by
    intro s t o p h h' hlt
    obtain ⟨c, hget, hc⟩ := h.initial
    have hfirst := h'.first c (mem_stretch.mpr ⟨s, h.start_le, hlt, hget⟩)
    rw [hc] at hfirst
    exact absurd hfirst (by simp)
  exact Nat.le_antisymm (Nat.not_lt.mp (hnot h' h)) (Nat.not_lt.mp (hnot h h'))

theorem FirstInitial.move (h : FirstInitial text a o s) (hsp : s < p) : FirstInitial text a p s :=
  ⟨h.start_le, hsp, h.initial, h.first⟩

/-- The leftmost identifier that reaches up to the cursor starts at the first letter or underscore. -/
theorem MaximalRun.firstInitial_iff (h : MaximalRun text o a b) :
    FirstInitial text a o s ↔
      IsIdentifier (stretch text s o) ∧ ∀ j < s, ¬ IsIdentifier (stretch text j o) := by
  rw [h.isIdentifier_iff]
  constructor
  · intro hs
    refine ⟨⟨hs.start_le, hs.lt_stop, hs.initial⟩, fun j hj hword => ?_⟩
    obtain ⟨haj, -, c, hget, hc⟩ := h.isIdentifier_iff.mp hword
    have hfirst := hs.first c (mem_stretch.mpr ⟨j, haj, hj, hget⟩)
    rw [hc] at hfirst
    exact absurd hfirst (by simp)
  · rintro ⟨⟨has, hso, hinitial⟩, hleast⟩
    refine ⟨has, hso, hinitial, fun c hc => ?_⟩
    obtain ⟨j, haj, hjs, hget⟩ := mem_stretch.mp hc
    rw [Bool.eq_false_iff]
    intro hc'
    exact hleast j hjs (h.isIdentifier_iff.mpr ⟨haj, hjs.trans hso, c, hget, hc'⟩)

end Run

/-! ### The word at a cursor -/

section Word

variable {text : List Char} {offset : Int} {a b o : Nat}

/-- The word at a cursor reaches from the first letter or underscore of the run to its end. -/
theorem MaximalRun.wordAt_eq_some_iff (h : MaximalRun text o a b)
    (ho : clampOffset text.length offset = o) {word : List Char} :
    wordAt text offset = some word ↔ ∃ s, FirstInitial text a o s ∧ word = stretch text s b := by
  rw [wordAt, ho]
  rcases wordBefore_spec (text.take o) with ⟨hnone, hall⟩ | ⟨i, hword, hi, hleast⟩
  · rw [hnone]
    refine iff_of_false (by simp) ?_
    rintro ⟨s, hs, -⟩
    exact hall s (h.firstInitial_iff.mp hs).1
  · have hfirst : FirstInitial text a o i := h.firstInitial_iff.mpr ⟨hi, hleast⟩
    obtain ⟨c, rest, hcons, -, -⟩ := hi
    have hfront : stretch text i o = c :: rest := hcons
    have hwhole : c :: rest ++ stretch text o b = stretch text i b := by
      rw [← hfront, stretch_append hfirst.lt_stop.le h.le_stop h.stop_le]
    rw [hword, hcons, h.takeWhile_drop]
    show some (c :: rest ++ stretch text o b) = some word ↔ _
    rw [hwhole, Option.some_inj]
    constructor
    · rintro rfl
      exact ⟨i, hfirst, rfl⟩
    · rintro ⟨s, hs, rfl⟩
      rw [hfirst.unique hs]

/-- There is no word at a cursor exactly if no letter and no underscore of the run stands left of it. -/
theorem MaximalRun.wordAt_eq_none_iff (h : MaximalRun text o a b)
    (ho : clampOffset text.length offset = o) :
    wordAt text offset = none ↔ ∀ c ∈ stretch text a o, isInitial c = false := by
  rw [Option.eq_none_iff_forall_ne_some]
  constructor
  · intro hnone c hc
    rw [Bool.eq_false_iff]
    intro hinitial
    obtain ⟨i, hi, hi', hget⟩ := mem_stretch.mp hc
    have hsome : ∃ i, IsIdentifier (stretch text i o) :=
      ⟨i, h.isIdentifier_iff.mpr ⟨hi, hi', c, hget, hinitial⟩⟩
    classical
    have hfirst : FirstInitial text a o (Nat.find hsome) :=
      h.firstInitial_iff.mpr ⟨Nat.find_spec hsome, fun j hj => Nat.find_min hsome hj⟩
    exact hnone _ ((h.wordAt_eq_some_iff ho).mpr ⟨_, hfirst, rfl⟩)
  · intro hall word hword
    obtain ⟨s, hs, -⟩ := (h.wordAt_eq_some_iff ho).mp hword
    obtain ⟨c, hget, hc⟩ := hs.initial
    have hnot := hall c (mem_stretch.mpr ⟨s, hs.start_le, hs.lt_stop, hget⟩)
    rw [hc] at hnot
    exact absurd hnot (by simp)

/-- All cursors in a run that stand behind the first letter or underscore have the same word. -/
theorem MaximalRun.wordAt_of_firstInitial {s : Nat} (h : MaximalRun text o a b)
    (hs : FirstInitial text a o s) {p : Int} (hsp : s < p) (hpb : p ≤ b) :
    wordAt text p = some (stretch text s b) := by
  have hclamp : clampOffset text.length p = p.toNat := by
    have hlength := h.stop_le
    have hcases := clampOffset_cases text.length p
    omega
  have hlow := hs.start_le
  have hrun : MaximalRun text p.toNat a b := h.move (by omega) (by omega)
  exact (hrun.wordAt_eq_some_iff hclamp).mpr ⟨s, hs.move (by omega), rfl⟩

end Word

/-- The word at an offset is read off the run of word characters around it.  There is none exactly if no
letter and no underscore of the run stands left of the offset; otherwise the word reaches from the first one
to the end of the run.  All cursors behind that first one have the same word, and hovering there gives the
same explanation. -/
theorem wordAt_exact (text : List Char) (offset : Int) :
    ∃ o a b : Nat, (o : Int) = max 0 (min offset text.length) ∧ MaximalRun text o a b ∧
      (wordAt text offset = none ↔ ∀ c ∈ stretch text a o, isInitial c = false) ∧
      (∀ word, wordAt text offset = some word ↔
        ∃ s, FirstInitial text a o s ∧ word = stretch text s b) ∧
      ∀ s, FirstInitial text a o s →
        (∀ p : Int, s < p → p ≤ b → wordAt text p = wordAt text offset ∧
          Service.explanationAt text p = Service.explanationAt text offset) ∧
        ∀ {ε : Type} (w : Workspace ε) (uri : String) (cursor : Position) (offsetAt : OffsetAt),
          (w.document uri).text.toList = text → cursor.Legal →
          s < offsetAt text cursor.line.toNat cursor.character.toNat →
          offsetAt text cursor.line.toNat cursor.character.toNat ≤ b →
            Service.hover uri cursor.line cursor.character offsetAt w =
              (.ok (Service.explanationAt text offset), w) := by
  obtain ⟨a, b, hrun⟩ := exists_maximalRun (clampOffset_le text.length offset)
  refine ⟨clampOffset text.length offset, a, b, clampOffset_eq _ _, hrun, hrun.wordAt_eq_none_iff rfl,
    fun word => hrun.wordAt_eq_some_iff rfl, fun s hs => ?_⟩
  have hword : wordAt text offset = some (stretch text s b) :=
    (hrun.wordAt_eq_some_iff rfl).mpr ⟨s, hs, rfl⟩
  have hsame : ∀ p : Int, s < p → p ≤ b → wordAt text p = wordAt text offset := by
    intro p hsp hpb
    rw [hword, hrun.wordAt_of_firstInitial hs hsp hpb]
  have hexplained : ∀ p : Int, s < p → p ≤ b →
      Service.explanationAt text p = Service.explanationAt text offset := by
    intro p hsp hpb
    rw [Service.explanationAt, Service.explanationAt, hsame p hsp hpb]
  refine ⟨fun p hsp hpb => ⟨hsame p hsp hpb, hexplained p hsp hpb⟩, ?_⟩
  intro ε w uri cursor offsetAt htext hlegal hsc hcb
  rw [Service.hover_of_legal htext hlegal, hexplained _ (by omega) (by omega)]

/-- Digits in front are no part of the word, and the cursor may stand anywhere behind its first letter. -/
example : wordAt "7up2 ".toList 2 = some "up2".toList ∧ wordAt "7up2 ".toList 4 = some "up2".toList ∧
    wordAt "7up2 ".toList 1 = none := by decide

end Symbol

end AnalyzerBridge
