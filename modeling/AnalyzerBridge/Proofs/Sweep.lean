/-
Checks that read a text once.

A `Check` walks over a text.  At every position it holds what the characters before
have left, looks at the text from there on, and may flag the position.  The stray
closers, the unfinished declarations and the arrows that open a line are the flags of
three checks.

* `Check.mem_sweep`, `Check.sweep_ascending` — a flagged position is a cut of the text at
  which the check flags, and the positions come in order;
* `strayClosers_eq`, `declarationFindings_eq`, `arrowFindings_eq` — the three checks;
* `unclosedFindings_moved` — findings on open brackets are at the end of the text, wherever
  that is;
* `stretch_of_mem_findings` — whatever is found begins in the text and ends in it.

Design notes: positions count from where the walk begins, so a walk goes on in the
rest of a text as if it began there.
-/
import AnalyzerBridge.Proofs.Bracket
import AnalyzerBridge.Proofs.Newline
import AnalyzerBridge.Proofs.Text
import AnalyzerBridge.Scan.Findings
import AnalyzerBridge.Service.Position

namespace AnalyzerBridge

namespace Scan

variable {σ β : Type}

/-- A walk over a text, with flags of type `β`. -/
structure Check (σ β : Type) where
  /-- what the walk holds after a character -/
  step : σ → Char → σ
  /-- the flag of the position before a text -/
  flag? : σ → List Char → Option β

namespace Check

variable (k : Check σ β)

/-- The flagged positions of a text with their flags, in order. -/
def sweep : σ → List Char → List (Nat × β)
  | _, [] => []
  | s, c :: rest =>
    ((k.flag? s (c :: rest)).map fun x => (0, x)).toList ++
      (sweep (k.step s c) rest).map fun p => (p.1 + 1, p.2)

variable {k}

theorem mem_sweep_cons {s : σ} {c : Char} {rest : List Char} {i : Nat} {x : β} :
    (i, x) ∈ k.sweep s (c :: rest) ↔
      i = 0 ∧ k.flag? s (c :: rest) = some x ∨
        ∃ j, i = j + 1 ∧ (j, x) ∈ k.sweep (k.step s c) rest := by
  rw [sweep, List.mem_append, Option.mem_toList, Option.map_eq_some_iff, List.mem_map]
  constructor
  · rintro (⟨y, hy, hp⟩ | ⟨⟨j, y⟩, hj, hp⟩)
    · obtain ⟨rfl, rfl⟩ := Prod.mk.inj hp
      exact Or.inl ⟨rfl, hy⟩
    · obtain ⟨rfl, rfl⟩ := Prod.mk.inj hp
      exact Or.inr ⟨j, rfl, hj⟩
  · rintro (⟨rfl, hx⟩ | ⟨j, rfl, hj⟩)
    · exact Or.inl ⟨x, hx, rfl⟩
    · exact Or.inr ⟨(j, x), hj, rfl⟩

/-- A flagged position is a cut of the text at which the check flags. -/
theorem mem_sweep {s : σ} {text : List Char} {i : Nat} {x : β} :
    (i, x) ∈ k.sweep s text ↔
      ∃ before c after, text = before ++ c :: after ∧ before.length = i ∧
        k.flag? (before.foldl k.step s) (c :: after) = some x := by
  induction text generalizing s i with
  | nil => simp [sweep]
  | cons c rest ih =>
    rw [mem_sweep_cons]
    constructor
    · rintro (⟨rfl, hx⟩ | ⟨j, rfl, hj⟩)
      · exact ⟨[], c, rest, rfl, rfl, hx⟩
      · obtain ⟨before, d, after, rfl, hlength, hflag⟩ := ih.mp hj
        exact ⟨c :: before, d, after, rfl, by rw [List.length_cons, hlength], hflag⟩
    · rintro ⟨before, d, after, htext, rfl, hflag⟩
      cases before with
      | nil =>
        obtain ⟨rfl, rfl⟩ := List.cons.inj htext
        exact Or.inl ⟨rfl, hflag⟩
      | cons b before =>
        obtain ⟨rfl, rfl⟩ := List.cons.inj htext
        exact Or.inr ⟨before.length, rfl, ih.mpr ⟨before, d, after, rfl, rfl, hflag⟩⟩

theorem lt_length_of_mem_sweep {s : σ} {text : List Char} {p : Nat × β} (h : p ∈ k.sweep s text) :
    p.1 < text.length := by
  obtain ⟨before, c, after, rfl, hlength, -⟩ := mem_sweep.mp h
  rw [← hlength, List.length_append, List.length_cons]
  omega

/-- A flag that takes so much of the text to be given ends in it. -/
theorem add_le_length_of_mem_sweep {s : σ} {text : List Char} {p : Nat × β} {width : Nat}
    (hwidth : ∀ s rest, k.flag? s rest = some p.2 → width ≤ rest.length) (h : p ∈ k.sweep s text) :
    p.1 + width ≤ text.length := by
  obtain ⟨before, c, after, rfl, hlength, hflag⟩ := mem_sweep.mp h
  have hle := hwidth _ _ hflag
  rw [List.length_append]
  omega

/-- Positions are flagged from the front to the back. -/
theorem sweep_ascending (s : σ) (text : List Char) :
    (k.sweep s text).Pairwise fun p q => p.1 < q.1 := by
  induction text generalizing s with
  | nil => exact List.Pairwise.nil
  | cons c rest ih =>
    rw [sweep]
    refine List.pairwise_append.mpr ⟨?_, ?_, ?_⟩
    · cases k.flag? s (c :: rest) <;> simp
    · exact List.pairwise_map.mpr ((ih (k.step s c)).imp fun h => Nat.succ_lt_succ h)
    · -- the position in front of the text comes before all that are counted from behind it
      intro p hp q hq
      obtain ⟨x, -, rfl⟩ := Option.map_eq_some_iff.mp (Option.mem_toList.mp hp)
      obtain ⟨r, -, rfl⟩ := List.mem_map.mp hq
      exact Nat.succ_pos r.1

/-- Checks that walk alike and flag alike at every cut of a text find the same in it. -/
theorem sweep_congr {l : Check σ β} (hstep : l.step = k.step) {s : σ} {text : List Char}
    (hflag : ∀ before c after, text = before ++ c :: after →
      l.flag? (before.foldl k.step s) (c :: after) = k.flag? (before.foldl k.step s) (c :: after)) :
    l.sweep s text = k.sweep s text := by
  induction text generalizing s with
  | nil => rfl
  | cons c rest ih =>
    have hhere : l.flag? s (c :: rest) = k.flag? s (c :: rest) := hflag [] c rest rfl
    have hrest : l.sweep (k.step s c) rest = k.sweep (k.step s c) rest := by
      refine ih fun before d after hcut => ?_
      rw [← List.foldl_cons]
      exact hflag (c :: before) d after (by rw [hcut, List.cons_append])
    rw [sweep, sweep, hstep, hhere, hrest]

/-- A check that walks alike and flags no less finds no less, in the same order. -/
theorem sweep_sublist {l : Check σ β} (hstep : l.step = k.step)
    (hflag : ∀ s text x, k.flag? s text = some x → l.flag? s text = some x) (s : σ)
    (text : List Char) : (k.sweep s text).Sublist (l.sweep s text) := by
  induction text generalizing s with
  | nil => exact List.Sublist.refl _
  | cons c rest ih =>
    rw [sweep, sweep, hstep]
    refine List.Sublist.append ?_ ((ih (k.step s c)).map _)
    cases hk : k.flag? s (c :: rest) with
    | none => exact List.nil_sublist _
    | some x => rw [hflag s (c :: rest) x hk]

end Check

/-! ### Stray closers -/

/-- The check for closers that nobody expects. -/
def strayCheck : Check BracketState Bracket where
  step := BracketState.read
  flag? := fun s text => text.head?.bind s.stray?

theorem strays_foldl (s : BracketState) (text : List Char) :
    (text.foldl BracketState.read s).strays.reverse =
      s.strays.reverse ++ (strayCheck.sweep s text).map fun p => (s.offset + p.1, p.2) := by
  induction text generalizing s with
  | nil => simp [Check.sweep]
  | cons c rest ih =>
    rw [List.foldl_cons, ih, BracketState.read_strays, BracketState.read_offset, Check.sweep,
      List.reverse_append, List.map_append, List.map_map, List.append_assoc]
    have hflag : strayCheck.flag? s (c :: rest) = s.stray? c := rfl
    -- the scan counts from the beginning of the text, the walk from where it is
    have hshift : (fun p : Nat × Bracket => (s.offset + 1 + p.1, p.2)) =
        (fun p : Nat × Bracket => (s.offset + p.1, p.2)) ∘ fun p => (p.1 + 1, p.2) := by
      funext p
      exact Prod.ext (by show s.offset + 1 + p.1 = s.offset + (p.1 + 1); omega) rfl
    rw [hflag, hshift]
    cases s.stray? c <;> rfl

theorem strayClosers_eq (text : List Char) : strayClosers text = strayCheck.sweep {} text := by
  rw [strayClosers, scan, strays_foldl]
  simp

theorem length_pos_of_mem_unclosedKinds {text : List Char} {k : Bracket}
    (h : k ∈ unclosedKinds text) : 0 < text.length := by
  obtain ⟨-, hk⟩ := List.mem_filter.mp h
  rw [List.length_pos_iff]
  rintro rfl
  exact absurd hk (by cases k <;> decide)

/-- If two texts leave the same brackets open, the findings on these move with the end of the text. -/
theorem unclosedFindings_moved {text other : List Char} (h : ∀ k, excess k other = excess k text)
    {move : Descriptor → Descriptor}
    (hmove : 0 < text.length → ∀ k n,
      move (unclosedFinding text.length k n) = unclosedFinding other.length k n) :
    ((unclosedKinds other).map fun k => unclosedFinding other.length k (excess k other).toNat) =
      ((unclosedKinds text).map fun k =>
        unclosedFinding text.length k (excess k text).toNat).map move := by
  have hkinds : unclosedKinds other = unclosedKinds text := by
    simp only [unclosedKinds, h]
  rw [hkinds, List.map_map]
  refine List.map_congr_left fun k hk => ?_
  rw [h]
  exact (hmove (length_pos_of_mem_unclosedKinds hk) k _).symm

/-! ### Unfinished declarations -/

/-- The check for unfinished declarations holds the character before. -/
def declarationCheck : Check (Option Char) Keyword where
  step := fun _ c => some c
  flag? := unfinishedAt?

theorem declarationsFrom_eq (before : Option Char) (offset : Nat) (found : List Descriptor)
    (text : List Char) :
    declarationsFrom before offset found text =
      found.reverse ++
        (declarationCheck.sweep before text).map fun p => unfinishedFinding (offset + p.1) p.2 := by
  induction text generalizing before offset found with
  | nil => simp [declarationsFrom, Check.sweep]
  | cons c rest ih =>
    have hshift : (fun p : Nat × Keyword => unfinishedFinding (offset + 1 + p.1) p.2) =
        (fun p : Nat × Keyword => unfinishedFinding (offset + p.1) p.2) ∘
          fun p => (p.1 + 1, p.2) := by
      funext p
      show unfinishedFinding (offset + 1 + p.1) p.2 = unfinishedFinding (offset + (p.1 + 1)) p.2
      rw [Nat.add_assoc, Nat.add_comm 1]
    have hflag : declarationCheck.flag? before (c :: rest) = unfinishedAt? before (c :: rest) := rfl
    rw [declarationsFrom, Check.sweep, List.map_append, List.map_map, ← hshift, hflag]
    cases unfinishedAt? before (c :: rest) with
    | none => exact ih (some c) (offset + 1) found
    | some k =>
      refine (ih (some c) (offset + 1) _).trans ?_
      rw [List.reverse_cons, List.append_assoc]
      rfl

theorem declarationFindings_eq (text : List Char) :
    declarationFindings text =
      (declarationCheck.sweep none text).map fun p => unfinishedFinding p.1 p.2 := by
  rw [declarationFindings, declarationsFrom_eq]
  simp

/-! ### Arrows that open a line -/

/-- The line has been blank so far. -/
def blankSoFar (blank : Bool) (c : Char) : Bool :=
  Text.isLineBreak c || blank && Text.isBlank c

/-- The lambda arrow. -/
def arrow : List Char := ['=', '>']

/-- The check for arrows that open a line. -/
def arrowCheck : Check Bool Unit where
  step := blankSoFar
  flag? := fun blank text => if blank && arrow.isPrefixOf text then some () else none

/-- The arrows in lines of which the first goes on with what stands before it. -/
def arrowOffsets (blank : Bool) : List (List Char) → List Nat
  | [] => []
  | line :: rest =>
    (if blank then arrowIndent? line else none).toList ++
      (arrowOffsets true rest).map fun i => line.length + i

theorem arrowOffsets_cons (blank : Bool) (line : List Char) (rest : List (List Char)) :
    arrowOffsets blank (line :: rest) =
      (if blank then arrowIndent? line else none).toList ++
        (arrowOffsets true rest).map fun i => line.length + i := rfl

theorem arrowsFrom_eq (start : Nat) (lines : List (List Char)) :
    arrowsFrom start lines = (arrowOffsets true lines).map fun i => arrowFinding (start + i) := by
  induction lines generalizing start with
  | nil => rfl
  | cons line rest ih =>
    have hshift : (fun i => arrowFinding (start + line.length + i)) =
        (fun i => arrowFinding (start + i)) ∘ fun i => line.length + i := by
      funext i
      show arrowFinding _ = arrowFinding _
      rw [Nat.add_assoc]
    rw [arrowsFrom, arrowOffsets, if_pos rfl, List.map_append, List.map_map, ← hshift, ih]
    cases arrowIndent? line <;> rfl

theorem arrowIndent?_eq (line : List Char) :
    arrowIndent? line =
      if arrow.isPrefixOf (line.dropWhile Text.isBlank) then
        some (line.takeWhile Text.isBlank).length
      else none := by
  rw [arrowIndent?]
  split
  next rest hdrop => rw [hdrop, if_pos (by simp [arrow])]
  next hdrop =>
    rw [if_neg]
    intro hprefix
    obtain ⟨rest, hrest⟩ := List.isPrefixOf_iff_prefix.mp hprefix
    exact hdrop rest hrest.symm

theorem arrowIndent?_cons_of_isBlank {c : Char} (h : Text.isBlank c = true) (line : List Char) :
    arrowIndent? (c :: line) = (arrowIndent? line).map (· + 1) := by
  rw [arrowIndent?_eq, arrowIndent?_eq, List.dropWhile_cons_of_pos h, List.takeWhile_cons_of_pos h]
  split <;> rfl

theorem arrowIndent?_cons_of_not_isBlank {c : Char} (h : Text.isBlank c = false) (line : List Char) :
    arrowIndent? (c :: line) = if arrow.isPrefixOf (c :: line) then some 0 else none := by
  have hneg : ¬ Text.isBlank c = true := by simp [h]
  rw [arrowIndent?_eq, List.dropWhile_cons_of_neg hneg, List.takeWhile_cons_of_neg hneg,
    List.length_nil]

theorem arrow_isPrefixOf_of_isBlank {c : Char} (h : Text.isBlank c = true) (rest : List Char) :
    arrow.isPrefixOf (c :: rest) = false := by
  have hc : ('=' == c) = false := by
    rw [beq_eq_false_iff_ne]
    rintro rfl
    exact absurd h (by decide)
  rw [arrow, List.isPrefixOf_cons_cons, hc, Bool.false_and]

theorem arrow_isPrefixOf_append (c : Char) {line : List Char} (h : line ≠ []) (more : List Char) :
    arrow.isPrefixOf (c :: (line ++ more)) = arrow.isPrefixOf (c :: line) := by
  obtain ⟨d, line, rfl⟩ := List.exists_cons_of_ne_nil h
  simp [arrow, List.isPrefixOf_cons_cons]

theorem arrow_isPrefixOf_singleton (c : Char) : arrow.isPrefixOf [c] = false := by
  simp [arrow, List.isPrefixOf_cons_cons]

theorem arrowIndent?_singleton (c : Char) : arrowIndent? [c] = none := by
  cases h : Text.isBlank c with
  | true =>
    rw [arrowIndent?_cons_of_isBlank h]
    rfl
  | false => rw [arrowIndent?_cons_of_not_isBlank h, arrow_isPrefixOf_singleton, if_neg (by simp)]

theorem map_later (c : Char) (line : List Char) (places : List Nat) :
    (places.map fun i => line.length + i).map (· + 1) =
      places.map fun i => (c :: line).length + i := by
  rw [List.map_map]
  refine List.map_congr_left fun i _ => ?_
  show line.length + i + 1 = (line.length + 1) + i
  omega

/-- A character that leaves its line open leaves the line blank as far as it is blank itself. -/
theorem arrowOffsets_consOpen (blank : Bool) (c : Char) (line : List Char)
    (more : List (List Char)) :
    arrowOffsets blank ((c :: line) :: more) =
      (if blank && arrow.isPrefixOf (c :: line) then some 0 else none).toList ++
        (arrowOffsets (blank && Text.isBlank c) (line :: more)).map (· + 1) := by
  rw [arrowOffsets_cons, arrowOffsets_cons, List.map_append, map_later c, ← List.append_assoc]
  congr 1
  cases blank with
  | false => rfl
  | true =>
    rw [if_pos rfl, Bool.true_and, Bool.true_and]
    cases hblank : Text.isBlank c with
    | false => rw [arrowIndent?_cons_of_not_isBlank hblank]; simp
    | true =>
      rw [arrowIndent?_cons_of_isBlank hblank, arrow_isPrefixOf_of_isBlank hblank]
      cases arrowIndent? line <;> rfl

/-- The line feed of a pair stands alone on its line, so no arrow is there. -/
theorem arrowOffsets_consPair (blank : Bool) {c : Char} (h : Text.isBlank c = true)
    (more : List (List Char)) :
    arrowOffsets blank ([c, '\n'] :: more) = (arrowOffsets true (['\n'] :: more)).map (· + 1) := by
  have hindent : arrowIndent? [c, '\n'] = none := by
    rw [arrowIndent?_cons_of_isBlank h, arrowIndent?_singleton, Option.map_none]
  rw [arrowOffsets_cons, arrowOffsets_cons, List.map_append, map_later c, hindent,
    arrowIndent?_singleton]
  cases blank <;> rfl

/-- A character that ends its line has no arrow on it. -/
theorem arrowOffsets_consBreak (blank : Bool) (c : Char) (lines : List (List Char)) :
    arrowOffsets blank ([c] :: lines) = (arrowOffsets true lines).map (· + 1) := by
  rw [arrowOffsets_cons, arrowIndent?_singleton, ite_self]
  exact List.map_congr_left fun i _ => Nat.add_comm 1 i

/-- A character before a text moves its arrows by one, and may be the start of one. -/
theorem arrowOffsets_consLine (blank : Bool) (c : Char) (rest : List Char) :
    arrowOffsets blank (Text.consLine c (Text.lines rest)) =
      (if blank && arrow.isPrefixOf (c :: rest) then some 0 else none).toList ++
        (arrowOffsets (blankSoFar blank c) (Text.lines rest)).map (· + 1) := by
  have hflat := Text.flatten_lines rest
  cases hlines : Text.lines rest with
  | nil =>
    rw [hlines, List.flatten_nil] at hflat
    subst hflat
    show arrowOffsets blank [[c]] = _
    rw [arrowOffsets_consBreak, arrow_isPrefixOf_singleton, Bool.and_false]
    rfl
  | cons line more =>
    rw [hlines, List.flatten_cons] at hflat
    have hne : line ≠ [] := Text.ne_nil_of_mem_lines (hlines ▸ List.mem_cons_self)
    rw [← hflat, arrow_isPrefixOf_append c hne, Text.consLine_cons]
    -- the first line grows by the character, unless that ends a line of its own
    cases hbreak : Text.isLineBreak c with
    | false =>
      rw [Bool.false_and, if_neg Bool.false_ne_true, arrowOffsets_consOpen, blankSoFar, hbreak,
        Bool.false_or]
    | true =>
      have hblank := Text.isBlank_of_isLineBreak hbreak
      rw [arrow_isPrefixOf_of_isBlank hblank, Bool.and_false, if_neg Bool.false_ne_true, blankSoFar,
        hbreak, Bool.true_or, Bool.true_and]
      cases hpair : (c == '\r' && line.head? == some '\n') with
      | true =>
        -- a return before a line feed ends the same line
        obtain ⟨-, hhead⟩ := Bool.and_eq_true_iff.mp hpair
        obtain rfl := Text.eq_lineFeed_of_head? hlines (by simpa using hhead)
        rw [Bool.not_true, if_neg Bool.false_ne_true, arrowOffsets_consPair blank hblank]
        rfl
      | false =>
        rw [Bool.not_false, if_pos rfl, arrowOffsets_consBreak]
        rfl

/-- The arrows that open the lines are those that the check flags. -/
theorem sweep_arrowCheck (blank : Bool) (text : List Char) :
    (arrowCheck.sweep blank text).map Prod.fst = arrowOffsets blank (Text.lines text) := by
  induction text generalizing blank with
  | nil => rfl
  | cons c rest ih =>
    have hflag : arrowCheck.flag? blank (c :: rest) =
        if blank && arrow.isPrefixOf (c :: rest) then some () else none := rfl
    rw [Text.lines_cons, arrowOffsets_consLine, ← ih, Check.sweep, List.map_append, List.map_map,
      List.map_map, hflag]
    congr 1
    split <;> rfl

theorem arrowFindings_eq (text : List Char) :
    arrowFindings text = (arrowCheck.sweep true text).map fun p => arrowFinding p.1 := by
  have hfirst : (arrowCheck.sweep true text).map (fun p => arrowFinding p.1) =
      ((arrowCheck.sweep true text).map Prod.fst).map arrowFinding := by
    rw [List.map_map]
    rfl
  rw [hfirst, sweep_arrowCheck, arrowFindings, arrowsFrom_eq]
  simp

/-! ### All findings -/

theorem Keyword.text_length (k : Keyword) : k.text.length = 3 := by
  cases k <;> rfl

theorem Keyword.length_le_of_unfinishedAt? {before : Option Char} {text : List Char} {k : Keyword}
    (h : unfinishedAt? before text = some k) : k.text.length ≤ text.length := by
  cases hkeyword : keywordAt? text with
  | none =>
    rw [unfinishedAt?, hkeyword] at h
    exact absurd h (by simp)
  | some p =>
    unfold keywordAt? at hkeyword
    split at hkeyword
    · exact k.text_length.trans_le (by simp)
    · exact k.text_length.trans_le (by simp)
    · exact absurd hkeyword (by simp)

theorem length_arrow_le_of_flag {blank : Bool} {text : List Char} {x : Unit}
    (h : arrowCheck.flag? blank text = some x) : arrow.length ≤ text.length := by
  obtain ⟨-, hprefix⟩ : blank = true ∧ arrow <+: text := by simpa [arrowCheck] using h
  exact hprefix.length_le

/-- Whatever is found begins in the text, covers a part of it and ends in it. -/
theorem stretch_of_mem_findings {text : List Char} {d : Descriptor} (h : d ∈ findings text) :
    ∃ i : Nat, d.offset = some (i : Int) ∧ 0 < d.extent ∧ i + d.extent ≤ text.length ∧
      ∀ n, d.length = some n → 0 ≤ n := by
  rw [findings, List.mem_append, List.mem_append, bracketFindings_eq, declarationFindings_eq,
    arrowFindings_eq, List.mem_append, List.mem_map, List.mem_map, List.mem_map, List.mem_map,
    strayClosers_eq] at h
  rcases h with ((⟨p, hp, rfl⟩ | ⟨k, hk, rfl⟩) | ⟨p, hp, rfl⟩) | ⟨p, hp, rfl⟩
  · have hlt := Check.lt_length_of_mem_sweep hp
    have hextent : (strayFinding p.1 p.2).extent = 1 := rfl
    exact ⟨p.1, rfl, by omega, by omega, by simp [strayFinding]⟩
  · have hpos := length_pos_of_mem_unclosedKinds hk
    have hextent : (unclosedFinding text.length k (excess k text).toNat).extent = 1 := rfl
    exact ⟨text.length - 1, rfl, by omega, by omega, by simp [unclosedFinding]⟩
  · have hle := Check.add_le_length_of_mem_sweep (fun _ _ => Keyword.length_le_of_unfinishedAt?) hp
    have hextent : (unfinishedFinding p.1 p.2).extent = p.2.text.length := by
      cases p.2 <;> rfl
    have hthree := p.2.text_length
    exact ⟨p.1, rfl, by omega, by omega, by simp [unfinishedFinding]⟩
  · have hle := Check.add_le_length_of_mem_sweep (fun _ _ => length_arrow_le_of_flag) hp
    have hextent : (arrowFinding p.1).extent = arrow.length := rfl
    have htwo : arrow.length = 2 := rfl
    exact ⟨p.1, rfl, by omega, by omega, by simp [arrowFinding]⟩

/-- Whatever is found has an offset in the text, and no negative length. -/
theorem offset_of_mem_findings {text : List Char} {d : Descriptor} (h : d ∈ findings text) :
    (∃ i : Nat, d.offset = some (i : Int) ∧ i < text.length) ∧ 0 ≤ d.extent := by
  obtain ⟨i, hoffset, hpos, hle, -⟩ := stretch_of_mem_findings h
  exact ⟨⟨i, hoffset, by omega⟩, hpos.le⟩

end Scan

end AnalyzerBridge
