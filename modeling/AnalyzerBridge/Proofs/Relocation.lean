/-
The scan of a text with unified newlines.

A check that does not look at newlines finds the same in a text once the newlines are
unified, each finding where its place has moved to.  The checks for stray closers and
for arrows are such; that for declarations takes a lone carriage return for the end of
a line only after it has become a line feed.

* `Check.Matches.sweep_unifyNewlines` — the flags of a check that matches another;
* `findings_unifyNewlines` — the findings in a text with unified newlines;
* `findings_unifyNewlines_eq_iff` — they are those in the text itself exactly if none
  of these is below a `\r\n` and no declaration stops at a lone carriage return.
-/
import AnalyzerBridge.Proofs.Sweep

namespace AnalyzerBridge.Scan

open Text

variable {σ β : Type}

/-! ### Checks on unified newlines -/

/-- The second check does on a text with unified newlines what the first does on the text itself: what
they hold stays related, neither flags a newline, and they flag alike everywhere else. -/
structure Check.Matches (k l : Check σ β) (Related : σ → σ → Prop) : Prop where
  other : ∀ {s s' c}, c ≠ '\r' → Related s s' → Related (k.step s c) (l.step s' c)
  lone : ∀ {s s'}, Related s s' → Related (k.step s '\r') (l.step s' '\n')
  pair : ∀ {s s'}, Related s s' → Related (k.step (k.step s '\r') '\n') (l.step s' '\n')
  silent : ∀ s rest, k.flag? s ('\r' :: rest) = none ∧ k.flag? s ('\n' :: rest) = none ∧
    l.flag? s ('\n' :: rest) = none
  flag : ∀ {s s' c} (rest : List Char), Related s s' → c ≠ '\r' → c ≠ '\n' →
    l.flag? s' (c :: unifyNewlines rest) = k.flag? s (c :: rest)

namespace Check

variable {k l : Check σ β} {Related : σ → σ → Prop}

/-- What the checks hold after a text is related. -/
theorem Matches.foldl_unifyNewlines (h : k.Matches l Related) {s s' : σ} (hs : Related s s')
    (text : List Char) : Related (text.foldl k.step s) ((unifyNewlines text).foldl l.step s') := by
  induction text using newlineRec generalizing s s' with
  | nil => exact hs
  | pair rest ih =>
    rw [unifyNewlines_pair]
    exact ih (h.pair hs)
  | lone rest hhead ih =>
    rw [unifyNewlines_return hhead]
    exact ih (h.lone hs)
  | other c rest hc ih =>
    rw [unifyNewlines_cons hc]
    exact ih (h.other hc hs)

theorem sweep_cons_of_none {s : σ} {c : Char} {rest : List Char} (h : k.flag? s (c :: rest) = none) :
    k.sweep s (c :: rest) = (k.sweep (k.step s c) rest).map fun p => (p.1 + 1, p.2) := by
  rw [sweep, h]
  rfl

/-- The flags on unified newlines are those on the text, moved to where their places are. -/
theorem Matches.sweep_unifyNewlines (h : k.Matches l Related) {s s' : σ} (hs : Related s s')
    (text : List Char) :
    l.sweep s' (unifyNewlines text) =
      (k.sweep s text).map fun p => (unifiedOffset text p.1, p.2) := by
  induction text using newlineRec generalizing s s' with
  | nil => rfl
  | pair rest ih =>
    obtain ⟨hreturn, -, hfeed⟩ := h.silent s ('\n' :: rest)
    obtain ⟨-, hpaired, -⟩ := h.silent (k.step s '\r') rest
    obtain ⟨-, -, hunified⟩ := h.silent s' (unifyNewlines rest)
    rw [unifyNewlines_pair, sweep_cons_of_none hunified, ih (h.pair hs), sweep_cons_of_none hreturn,
      sweep_cons_of_none hpaired, List.map_map, List.map_map, List.map_map]
    rfl
  | lone rest hhead ih =>
    obtain ⟨hreturn, -, -⟩ := h.silent s rest
    obtain ⟨-, -, hunified⟩ := h.silent s' (unifyNewlines rest)
    rw [unifyNewlines_return hhead, sweep_cons_of_none hunified, ih (h.lone hs),
      sweep_cons_of_none hreturn, List.map_map, List.map_map]
    refine List.map_congr_left fun p _ => ?_
    show (unifiedOffset rest p.1 + 1, p.2) = (unifiedOffset ('\r' :: rest) (p.1 + 1), p.2)
    rw [unifiedOffset_return hhead]
  | other c rest hc ih =>
    have hflag : l.flag? s' (c :: unifyNewlines rest) = k.flag? s (c :: rest) := by
      by_cases hfeed : c = '\n'
      · subst hfeed
        rw [(h.silent s rest).2.1, (h.silent s' (unifyNewlines rest)).2.2]
      · exact h.flag rest hs hc hfeed
    rw [unifyNewlines_cons hc, sweep, sweep, ih (h.other hc hs), hflag, List.map_append,
      List.map_map, List.map_map]
    congr 1
    · cases k.flag? s (c :: rest) <;> rfl
    · refine List.map_congr_left fun p _ => ?_
      show (unifiedOffset rest p.1 + 1, p.2) = (unifiedOffset (c :: rest) (p.1 + 1), p.2)
      rw [unifiedOffset_cons hc]

end Check

/-! ### The three checks -/

theorem stray?_congr {s s' : BracketState} (h : s.depths = s'.depths) (c : Char) :
    s.stray? c = s'.stray? c := by
  rw [BracketState.stray?, BracketState.stray?, h]

theorem depths_read_congr {s s' : BracketState} (h : s.depths = s'.depths) (c : Char) :
    (s.read c).depths = (s'.read c).depths := by
  rw [BracketState.read, BracketState.read, h]
  split
  · rfl
  · split
    · rfl
    · split <;> rfl

theorem strayCheck_matches : strayCheck.Matches strayCheck fun s s' => s.depths = s'.depths where
  other := fun _ h => depths_read_congr h _
  lone := fun h => h
  pair := fun h => h
  silent := fun _ _ => ⟨rfl, rfl, rfl⟩
  flag := fun _ h _ _ => (stray?_congr h _).symm

theorem arrow_isPrefixOf_cons (c : Char) (rest : List Char) :
    arrow.isPrefixOf (c :: rest) = ('=' == c && rest.head? == some '>') := by
  cases rest with
  | nil => simp [arrow, List.isPrefixOf_cons_cons]
  | cons d rest =>
    have hswap : ('>' == d) = (d == '>') := BEq.comm
    rw [arrow, List.isPrefixOf_cons_cons, List.isPrefixOf_cons_cons, List.head?_cons, hswap]
    simp

theorem arrowCheck_matches : arrowCheck.Matches arrowCheck Eq where
  other := by
    rintro s _ c - rfl
    rfl
  lone := by
    rintro s _ rfl
    rfl
  pair := by
    rintro s _ rfl
    rfl
  silent := fun s rest => by
    have hfeed := arrow_isPrefixOf_of_isBlank (c := '\n') (by decide) rest
    have hreturn := arrow_isPrefixOf_of_isBlank (c := '\r') (by decide) rest
    simp only [arrowCheck, hfeed, hreturn, Bool.and_false]
    exact ⟨rfl, rfl, rfl⟩
  flag := by
    rintro s _ c rest rfl - -
    have hnext : ((unifyNewlines rest).head? == some '>') = (rest.head? == some '>') := by
      rw [head?_unifyNewlines]
      cases rest.head? with
      | none => rfl
      | some d =>
        by_cases hd : d = '\r'
        · subst hd
          decide
        · rw [Option.map_some, if_neg hd]
    simp only [arrowCheck, arrow_isPrefixOf_cons, hnext]

/-! ### Declarations -/

/-- Spaces and tabs may follow a keyword on its line. -/
def isGap (c : Char) : Bool :=
  c == ' ' || c == '\t'

/-- The rest of the line is spaces and tabs, up to a newline of any spelling. -/
def lineStops (text : List Char) : Bool :=
  let rest := text.dropWhile isGap
  rest.isEmpty || rest.head? == some '\n' || rest.head? == some '\r'

/-- The check for declarations that stop at a newline of any spelling. -/
def stopCheck : Check (Option Char) Keyword where
  step := fun _ c => some c
  flag? := fun before text =>
    match keywordAt? text with
    | some (k, rest) => if !before.any isWordChar && lineStops rest then some k else none
    | none => none

theorem keywordAt?_eq_some_iff {text rest : List Char} {k : Keyword} :
    keywordAt? text = some (k, rest) ↔ text = k.text.toList ++ rest := by
  have hvalue : Keyword.value.text.toList = ['v', 'a', 'l'] := by decide
  have hfunction : Keyword.function.text.toList = ['d', 'e', 'f'] := by decide
  constructor
  · intro h
    unfold keywordAt? at h
    split at h
    · obtain ⟨rfl, rfl⟩ := Prod.mk.inj (Option.some_inj.mp h)
      rw [hvalue]
      rfl
    · obtain ⟨rfl, rfl⟩ := Prod.mk.inj (Option.some_inj.mp h)
      rw [hfunction]
      rfl
    · exact absurd h (by simp)
  · rintro rfl
    cases k with
    | value => rw [hvalue]; rfl
    | function => rw [hfunction]; rfl

theorem Keyword.no_newline (k : Keyword) : ∀ c ∈ k.text.toList, c ≠ '\n' ∧ c ≠ '\r' := by
  have hall : k.text.toList.all (fun c => c != '\n' && c != '\r') = true := by
    cases k <;> decide
  intro c hc
  simpa using List.all_eq_true.mp hall c hc

/-- A keyword is still a keyword among unified newlines, and no other text becomes one. -/
theorem keywordAt?_unifyNewlines (text : List Char) :
    keywordAt? (unifyNewlines text) =
      (keywordAt? text).map fun p => (p.1, unifyNewlines p.2) := by
  refine Option.ext fun ⟨k, unified⟩ => ?_
  rw [keywordAt?_eq_some_iff, unifyNewlines_eq_append_iff _ k.no_newline, Option.map_eq_some_iff]
  constructor
  · rintro ⟨rest, htext, rfl⟩
    exact ⟨(k, rest), keywordAt?_eq_some_iff.mpr htext, rfl⟩
  · rintro ⟨⟨k', rest⟩, hrest, hp⟩
    obtain ⟨rfl, rfl⟩ := Prod.mk.inj hp
    exact ⟨rest, keywordAt?_eq_some_iff.mp hrest, rfl⟩

theorem lineIsOver_unifyNewlines (text : List Char) :
    lineIsOver (unifyNewlines text) = lineStops text := by
  have hdrop := dropWhile_unifyNewlines (p := isGap) (by decide) (by decide) text
  have hgap : isGap = fun c => c == ' ' || c == '\t' := rfl
  rw [lineIsOver, lineStops, ← hgap, hdrop]
  cases hrest : text.dropWhile isGap with
  | nil => rfl
  | cons c rest =>
    have hhead := head?_unifyNewlines (c :: rest)
    rw [List.head?_cons, Option.map_some] at hhead
    obtain ⟨unified, hunified⟩ := List.head?_eq_some_iff.mp hhead
    rw [hunified]
    -- no carriage return is left that the check could skip
    by_cases hreturn : c = '\r'
    · subst hreturn
      rfl
    · rw [if_neg hreturn]
      simp [hreturn]

theorem stopCheck_matches :
    stopCheck.Matches declarationCheck fun b b' => b.any isWordChar = b'.any isWordChar where
  other := fun _ _ => rfl
  lone := fun _ => by
    show isWordChar '\r' = isWordChar '\n'
    decide
  pair := fun _ => rfl
  silent := fun s rest => ⟨rfl, rfl, rfl⟩
  flag := by
    intro before before' c rest hbefore hreturn hfeed
    show unfinishedAt? before' (c :: unifyNewlines rest) = _
    rw [← unifyNewlines_cons hreturn, unfinishedAt?, keywordAt?_unifyNewlines]
    show _ = match keywordAt? (c :: rest) with
      | some (k, rest) => if !before.any isWordChar && lineStops rest then some k else none
      | none => none
    cases keywordAt? (c :: rest) with
    | none => rfl
    | some p =>
      simp only [Option.map_some, lineIsOver_unifyNewlines, hbefore]

/-! ### Findings -/

/-- The finding where it is once the newlines of the text are unified. -/
def relocated (text : List Char) (d : Descriptor) : Descriptor :=
  { d with offset := d.offset.map fun i => (unifiedOffset text (i.toNat + 1) : Int) - 1 }

/-- A finding stays where it is exactly if no `\r\n` is before its end. -/
theorem relocated_eq_self_iff {text : List Char} {d : Descriptor} {i : Nat}
    (hoffset : d.offset = some (i : Int)) (hi : i < text.length) :
    relocated text d = d ↔ ¬ ['\r', '\n'] <:+: text.take (i + 1) := by
  obtain ⟨message, offset, length, line, column⟩ := d
  obtain rfl : offset = some (i : Int) := hoffset
  have hfree := @unifiedOffset_eq_self_iff text (i + 1) hi
  rw [← hfree, relocated]
  simp only [Option.map_some, Int.toNat_natCast, Descriptor.mk.injEq, Option.some_inj, true_and,
    and_true]
  omega

variable {k l : Check σ β} {Related : σ → σ → Prop} {text : List Char}

theorem Check.Matches.ne_newline (h : k.Matches l Related) {s : σ} {c : Char} {rest : List Char} {x : β}
    (hflag : k.flag? s (c :: rest) = some x) : c ≠ '\r' ∧ c ≠ '\n' := by
  obtain ⟨hreturn, hfeed, -⟩ := h.silent s rest
  constructor
  · rintro rfl
    rw [hreturn] at hflag
    exact absurd hflag (by simp)
  · rintro rfl
    rw [hfeed] at hflag
    exact absurd hflag (by simp)

theorem Check.Matches.unifiedOffset_succ (h : k.Matches l Related) {s : σ} {p : Nat × β}
    (hp : p ∈ k.sweep s text) : unifiedOffset text (p.1 + 1) = unifiedOffset text p.1 + 1 := by
  obtain ⟨before, c, after, rfl, hlength, hflag⟩ := Check.mem_sweep.mp hp
  obtain ⟨hreturn, hfeed⟩ := h.ne_newline hflag
  rw [← hlength]
  exact Text.unifiedOffset_succ hreturn hfeed

/-- The findings on flags move with their places. -/
theorem Check.Matches.findings_unifyNewlines (h : k.Matches l Related) {s s' : σ}
    (hs : Related s s') {finding : Nat → β → Descriptor}
    (hfinding : ∀ i j x, { finding i x with offset := some (j : Int) } = finding j x) :
    ((l.sweep s' (unifyNewlines text)).map fun p => finding p.1 p.2) =
      ((k.sweep s text).map fun p => finding p.1 p.2).map (relocated text) := by
  rw [h.sweep_unifyNewlines hs, List.map_map, List.map_map]
  refine List.map_congr_left fun p hp => ?_
  show finding (unifiedOffset text p.1) p.2 = relocated text (finding p.1 p.2)
  have hoffset : (finding p.1 p.2).offset = some (p.1 : Int) := by
    rw [← hfinding p.1 p.1 p.2]
  have hmoved : ((unifiedOffset text (p.1 + 1) : Int) - 1) = unifiedOffset text p.1 := by
    rw [h.unifiedOffset_succ hp]
    omega
  rw [relocated, hoffset, Option.map_some, Int.toNat_natCast, hmoved, hfinding]

theorem excess_unifyNewlines (b : Bracket) (text : List Char) :
    excess b (unifyNewlines text) = excess b text := by
  have hdepths : (scan text).depths = (scan (unifyNewlines text)).depths :=
    strayCheck_matches.foldl_unifyNewlines rfl text
  rw [← (tracks_scan (unifyNewlines text)).depth b, ← (tracks_scan text).depth b, hdepths]

theorem bracketFindings_unifyNewlines (text : List Char) :
    bracketFindings (unifyNewlines text) = (bracketFindings text).map (relocated text) := by
  have hstrays : ((strayCheck.sweep {} (unifyNewlines text)).map fun p => strayFinding p.1 p.2) =
      ((strayCheck.sweep {} text).map fun p => strayFinding p.1 p.2).map (relocated text) :=
    strayCheck_matches.findings_unifyNewlines rfl fun _ _ _ => rfl
  have hend : 0 < text.length → ∀ b n, relocated text (unclosedFinding text.length b n) =
      unclosedFinding (unifyNewlines text).length b n := fun hpos b n => by
    have hunified := length_unifyNewlines_pos hpos
    have hlast : ((unifyNewlines text).length - 1 : Nat) = ((unifyNewlines text).length : Int) - 1 := by
      omega
    rw [relocated]
    simp only [unclosedFinding, Option.map_some, Int.toNat_natCast, Nat.sub_add_cancel hpos,
      unifiedOffset_length, hlast]
  rw [bracketFindings_eq, bracketFindings_eq, strayClosers_eq, strayClosers_eq, List.map_append,
    hstrays, unclosedFindings_moved (fun b => excess_unifyNewlines b text) hend]

/-- The findings in a text with unified newlines: those on the brackets, the declarations that stop at a
newline of any spelling and the arrows of the text itself, where their places have moved to. -/
theorem findings_unifyNewlines (text : List Char) :
    findings (unifyNewlines text) =
      (bracketFindings text ++
          (stopCheck.sweep none text).map (fun p => unfinishedFinding p.1 p.2) ++
        arrowFindings text).map (relocated text) := by
  have hdeclarations : ((declarationCheck.sweep none (unifyNewlines text)).map
        fun p => unfinishedFinding p.1 p.2) =
      ((stopCheck.sweep none text).map fun p => unfinishedFinding p.1 p.2).map (relocated text) :=
    stopCheck_matches.findings_unifyNewlines rfl fun _ _ _ => rfl
  have harrows : ((arrowCheck.sweep true (unifyNewlines text)).map fun p => arrowFinding p.1) =
      ((arrowCheck.sweep true text).map fun p => arrowFinding p.1).map (relocated text) :=
    @Check.Matches.findings_unifyNewlines _ _ _ _ _ text arrowCheck_matches _ _ rfl
      (fun i _ => arrowFinding i) fun _ _ _ => rfl
  rw [findings, bracketFindings_unifyNewlines, declarationFindings_eq, arrowFindings_eq,
    arrowFindings_eq, hdeclarations, harrows, List.map_append, List.map_append]

/-! ### Lone carriage returns -/

/-- A declaration keyword is followed on its line by nothing but spaces and tabs up to a carriage return
that stands alone in the text. -/
def StopsAtReturn (text : List Char) : Prop :=
  ∃ before, ∃ k : Keyword, ∃ gap c after, text = before ++ (k.text.toList ++ (gap ++ '\r' :: c :: after)) ∧
    c ≠ '\n' ∧ (∀ g ∈ gap, isGap g = true) ∧ before.getLast?.any isWordChar = false

theorem foldl_declarationCheck (before : List Char) :
    before.foldl declarationCheck.step none = before.getLast? := by
  induction before using List.reverseRecOn with
  | nil => rfl
  | append_singleton before c ih =>
    rw [List.foldl_append, List.getLast?_append]
    rfl

/-- A line that is over has stopped, and one that stops without being over stops at a carriage return that
stands alone. -/
theorem lineStops_cases (text : List Char) :
    lineStops text = lineIsOver text ∧
        (∀ c after, text.dropWhile isGap = '\r' :: c :: after → c = '\n') ∨
      lineStops text = true ∧ lineIsOver text = false ∧
        ∃ c after, text.dropWhile isGap = '\r' :: c :: after ∧ c ≠ '\n' := by
  have hgap : isGap = fun c => c == ' ' || c == '\t' := rfl
  rw [lineStops, lineIsOver, ← hgap]
  cases text.dropWhile isGap with
  | nil => exact Or.inl ⟨rfl, by simp⟩
  | cons c rest =>
    by_cases hreturn : c = '\r'
    · subst hreturn
      cases rest with
      | nil => exact Or.inl ⟨rfl, by simp⟩
      | cons d rest =>
        by_cases hfeed : d = '\n'
        · subst hfeed
          exact Or.inl ⟨rfl, by simp⟩
        · exact Or.inr ⟨rfl, by simp [hfeed], d, rest, rfl, hfeed⟩
    · exact Or.inl ⟨by simp [hreturn], by simp [hreturn]⟩

variable {before : Option Char} {rest : List Char} {b : Keyword}

theorem unfinishedAt?_keyword (h : keywordAt? text = some (b, rest)) :
    unfinishedAt? before text =
      if !before.any isWordChar && lineIsOver rest then some b else none := by
  rw [unfinishedAt?, h]

theorem stopCheck_keyword (h : keywordAt? text = some (b, rest)) :
    stopCheck.flag? before text =
      if !before.any isWordChar && lineStops rest then some b else none := by
  simp only [stopCheck, h]

theorem flags_of_no_keyword (h : keywordAt? text = none) :
    unfinishedAt? before text = none ∧ stopCheck.flag? before text = none := by
  rw [unfinishedAt?, h]
  simp only [stopCheck, h, true_and]

theorem stopCheck_of_unfinishedAt? (h : unfinishedAt? before text = some b) :
    stopCheck.flag? before text = some b := by
  cases hkeyword : keywordAt? text with
  | none =>
    rw [(flags_of_no_keyword hkeyword).1] at h
    exact absurd h (by simp)
  | some p =>
    rw [unfinishedAt?_keyword hkeyword] at h
    rw [stopCheck_keyword hkeyword]
    rcases lineStops_cases p.2 with ⟨hsame, -⟩ | ⟨-, hover, -⟩
    · rw [hsame]
      exact h
    · rw [hover, Bool.and_false] at h
      exact absurd h (by simp)

/-- A declaration that stops at a lone carriage return is flagged as stopped, but not as unfinished. -/
theorem StopsAtReturn.sweep_ne (h : StopsAtReturn text) :
    stopCheck.sweep none text ≠ declarationCheck.sweep none text := by
  obtain ⟨before, b, gap, c, after, htext, hc, hgap, hword⟩ := h
  intro hsame
  have hdrop : (gap ++ '\r' :: c :: after).dropWhile isGap = '\r' :: c :: after := by
    rw [List.dropWhile_append_of_pos hgap]
    rfl
  rcases lineStops_cases (gap ++ '\r' :: c :: after) with ⟨-, hpaired⟩ | ⟨hstops, hover, -⟩
  · exact hc (hpaired c after hdrop)
  have hkeyword : keywordAt? (b.text.toList ++ (gap ++ '\r' :: c :: after)) =
      some (b, gap ++ '\r' :: c :: after) := keywordAt?_eq_some_iff.mpr rfl
  obtain ⟨d, back, hback⟩ := List.exists_cons_of_ne_nil (l := b.text.toList ++
    (gap ++ '\r' :: c :: after)) (by cases b <;> simp [Keyword.text])
  rw [hback] at htext hkeyword
  have hmem : (before.length, b) ∈ stopCheck.sweep none text := by
    refine Check.mem_sweep.mpr ⟨before, d, back, htext, rfl, ?_⟩
    show stopCheck.flag? (before.foldl declarationCheck.step none) (d :: back) = some b
    rw [foldl_declarationCheck, stopCheck_keyword hkeyword, hword, hstops]
    rfl
  rw [hsame] at hmem
  obtain ⟨before', d', back', htext', hlength, hflag⟩ := Check.mem_sweep.mp hmem
  -- both sweeps cut the text at the same place
  obtain ⟨rfl, hrest⟩ := List.append_inj (htext'.symm.trans htext) hlength
  obtain ⟨rfl, rfl⟩ := List.cons.inj hrest
  rw [foldl_declarationCheck] at hflag
  have hnone : unfinishedAt? before'.getLast? (d' :: back') = none := by
    rw [unfinishedAt?_keyword hkeyword, hover, Bool.and_false]
    rfl
  exact absurd (hnone.symm.trans hflag) (by simp)

/-- Where no declaration stops at a lone carriage return, each one that is flagged as stopped is
unfinished. -/
theorem sweep_stopCheck_of_not_stopsAtReturn (h : ¬ StopsAtReturn text) :
    stopCheck.sweep none text = declarationCheck.sweep none text := by
  refine Check.sweep_congr (k := declarationCheck) (l := stopCheck) rfl
    fun before c after hcut => ?_
  rw [foldl_declarationCheck]
  show stopCheck.flag? before.getLast? (c :: after) = unfinishedAt? before.getLast? (c :: after)
  cases hkeyword : keywordAt? (c :: after) with
  | none =>
    obtain ⟨hover, hstop⟩ := @flags_of_no_keyword _ before.getLast? hkeyword
    rw [hover, hstop]
  | some p =>
    obtain ⟨b, rest⟩ := p
    rw [unfinishedAt?_keyword hkeyword, stopCheck_keyword hkeyword]
    rcases lineStops_cases rest with ⟨hsame, -⟩ | ⟨-, -, d, back, hdrop, hd⟩
    · rw [hsame]
    · cases hword : before.getLast?.any isWordChar with
      | true => rfl
      | false =>
        refine absurd ⟨before, b, rest.takeWhile isGap, d, back, ?_, hd, ?_, hword⟩ h
        · rw [hcut, keywordAt?_eq_some_iff.mp hkeyword, ← hdrop, List.takeWhile_append_dropWhile]
        · exact List.all_eq_true.mp List.all_takeWhile

/-- The two checks for declarations differ in a text exactly if a declaration in it stops at a lone
carriage return. -/
theorem sweep_stopCheck_eq_iff (text : List Char) :
    stopCheck.sweep none text = declarationCheck.sweep none text ↔ ¬ StopsAtReturn text :=
  ⟨fun hsame hstops => hstops.sweep_ne hsame, sweep_stopCheck_of_not_stopsAtReturn⟩

/-- The findings are the same exactly if none of those in the text itself is below a `\r\n` and no
declaration stops at a lone carriage return. -/
theorem findings_unifyNewlines_eq_iff (text : List Char) :
    findings (unifyNewlines text) = findings text ↔
      (∀ d ∈ findings text, ∀ i : Nat, d.offset = some (i : Int) →
        ¬ ['\r', '\n'] <:+: text.take (i + 1)) ∧
      ¬ StopsAtReturn text := by
  have hfindings : findings text = bracketFindings text ++
      (declarationCheck.sweep none text).map (fun p => unfinishedFinding p.1 p.2) ++
        arrowFindings text := by
    rw [findings, declarationFindings_eq]
  have hstays : (∀ d ∈ findings text, relocated text d = d) ↔
      ∀ d ∈ findings text, ∀ i : Nat, d.offset = some (i : Int) →
        ¬ ['\r', '\n'] <:+: text.take (i + 1) := by
    refine forall₂_congr fun d hd => ?_
    obtain ⟨⟨i, hoffset, hi⟩, -⟩ := offset_of_mem_findings hd
    rw [relocated_eq_self_iff hoffset hi]
    constructor
    · intro hfree j hj
      obtain rfl : i = j := by simpa [hoffset] using hj
      exact hfree
    · intro hfree
      exact hfree i hoffset
  rw [← hstays, ← sweep_stopCheck_eq_iff]
  constructor
  · intro hsame
    have hsublist := Check.sweep_sublist (k := declarationCheck) (l := stopCheck) rfl
      (fun _ _ _ => stopCheck_of_unfinishedAt?) none text
    have hlength := congrArg List.length hsame
    rw [findings_unifyNewlines, hfindings] at hlength
    simp only [List.length_map, List.length_append] at hlength
    have hsweep := hsublist.eq_of_length (by omega)
    refine ⟨?_, hsweep.symm⟩
    rw [findings_unifyNewlines, ← hsweep, ← hfindings] at hsame
    exact List.map_inj_left.mp (hsame.trans (List.map_id _).symm)
  · rintro ⟨hstay, hsweep⟩
    rw [findings_unifyNewlines, hsweep, ← hfindings]
    exact (List.map_inj_left.mpr hstay).trans (List.map_id _)

end AnalyzerBridge.Scan
