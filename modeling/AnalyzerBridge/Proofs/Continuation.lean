/-
The scan of a text that goes on.

Behind complete lines in which no bracket is left open, every check is where it is at the
start of a text.

* `Check.sweep_append` — a check that looks no further than the lines that it is in goes on
  behind them from what it holds then;
* `Check.Respects.sweep_eq` — what two walks find is the same as long as what they hold makes
  no difference to the flags;
* `bracketFindings_append`, `declarationFindings_append`, `arrowFindings_append` — the three
  checks;
* `validate_append` — below lines without findings a text has its own findings, further down.

Design notes: stray closers above do no harm, open brackets do; the lines above have to be
complete, because a declaration, an arrow or a word could go on.
-/
import AnalyzerBridge.Proofs.Cursor
import AnalyzerBridge.Proofs.Relocation

namespace AnalyzerBridge.Scan

open Text

variable {σ β : Type}

/-- The finding so many characters further down. -/
def lowered (n : Nat) (d : Descriptor) : Descriptor :=
  { d with offset := d.offset.map (· + (n : Int)) }

/-! ### Checks on texts that go on -/

namespace Check

variable {k : Check σ β}

/-- Behind a text in which the flags do not depend on what follows, a check goes on from what it holds. -/
theorem sweep_append {s : σ} {front back : List Char}
    (hflag : ∀ before c after, front = before ++ c :: after →
      k.flag? (before.foldl k.step s) (c :: (after ++ back)) =
        k.flag? (before.foldl k.step s) (c :: after)) :
    k.sweep s (front ++ back) =
      k.sweep s front ++
        (k.sweep (front.foldl k.step s) back).map fun p => (front.length + p.1, p.2) := by
  induction front generalizing s with
  | nil => simp [sweep]
  | cons c front ih =>
    have hhere := hflag [] c front rfl
    have hrest := ih (s := k.step s c) fun before d after hcut =>
      hflag (c :: before) d after (by rw [hcut, List.cons_append])
    have hshift : (fun p : Nat × β => (front.length + p.1 + 1, p.2)) =
        fun p => ((c :: front).length + p.1, p.2) := by
      funext p
      rw [List.length_cons, Nat.add_right_comm]
    rw [List.foldl_nil] at hhere
    rw [List.cons_append, sweep, sweep, hhere, hrest, List.map_append, List.map_map, List.append_assoc,
      List.foldl_cons, ← hshift]
    rfl

/-- What a check holds makes no difference to it if it is related: it stays related, and the flags are the
same. -/
structure Respects (k : Check σ β) (Related : σ → σ → Prop) : Prop where
  step : ∀ {s s' : σ} (c : Char), Related s s' → Related (k.step s c) (k.step s' c)
  flag : ∀ {s s' : σ} (text : List Char), Related s s' → k.flag? s text = k.flag? s' text

variable {Related : σ → σ → Prop}

theorem Respects.sweep_eq (h : k.Respects Related) {s s' : σ} (hs : Related s s')
    (text : List Char) : k.sweep s text = k.sweep s' text := by
  induction text generalizing s s' with
  | nil => rfl
  | cons c rest ih => rw [sweep, sweep, h.flag (c :: rest) hs, ih (h.step c hs)]

/-- The findings on flags behind a text are those of a text of its own, further down, if the check holds
nothing that makes a difference there. -/
theorem Respects.findings_append (h : k.Respects Related) {s : σ} {front back : List Char}
    (hs : Related (front.foldl k.step s) s)
    (hflag : ∀ before c after, front = before ++ c :: after →
      k.flag? (before.foldl k.step s) (c :: (after ++ back)) =
        k.flag? (before.foldl k.step s) (c :: after))
    {finding : Nat → β → Descriptor}
    (hfinding : ∀ n i x, lowered n (finding i x) = finding (n + i) x) :
    ((k.sweep s (front ++ back)).map fun p => finding p.1 p.2) =
      ((k.sweep s front).map fun p => finding p.1 p.2) ++
        ((k.sweep s back).map fun p => finding p.1 p.2).map (lowered front.length) := by
  rw [sweep_append hflag, h.sweep_eq hs, List.map_append, List.map_map, List.map_map]
  congr 1
  exact List.map_congr_left fun p _ => (hfinding front.length p.1 p.2).symm

end Check

/-! ### Brackets -/

theorem strayCheck_respects : strayCheck.Respects fun s s' => s.depths = s'.depths where
  step := fun c h => depths_read_congr h c
  flag := fun text h => by
    cases text with
    | nil => rfl
    | cons c rest => exact stray?_congr h c

theorem depths_scan_append {front : List Char} (h : (scan front).depths = {}) (back : List Char) :
    (scan (front ++ back)).depths = (scan back).depths := by
  rw [scan, List.foldl_append]
  exact List.foldl_rel (r := fun s s' : BracketState => s.depths = s'.depths) h
    fun c _ _ _ hs => depths_read_congr hs c

/-- A text that leaves no bracket open leaves all counters at zero. -/
theorem depths_scan_of_closed {text : List Char} (h : ∀ k, excess k text = 0) :
    (scan text).depths = {} := by
  have hzero : ∀ k, (scan text).depths.get k = 0 := fun k => by
    have hk := (tracks_scan text).depth k
    rw [h k] at hk
    exact Int.natCast_eq_zero.mp hk
  generalize hd : (scan text).depths = d at hzero ⊢
  obtain ⟨brace, parenthesis, bracket⟩ := d
  obtain rfl : brace = 0 := hzero .brace
  obtain rfl : parenthesis = 0 := hzero .parenthesis
  obtain rfl : bracket = 0 := hzero .bracket
  rfl

theorem lowered_unclosedFinding {size : Nat} (h : 0 < size) (n : Nat) (k : Bracket) (count : Nat) :
    lowered n (unclosedFinding size k count) = unclosedFinding (n + size) k count := by
  have hlast : (((size - 1 : Nat) : Int) + n) = ((n + size - 1 : Nat) : Int) := by omega
  simp only [lowered, unclosedFinding, Option.map_some, hlast]

theorem lowered_strayFinding (n i : Nat) (k : Bracket) :
    lowered n (strayFinding i k) = strayFinding (n + i) k := by
  simp only [lowered, strayFinding, Option.map_some, Nat.cast_add, add_comm (i : Int)]

/-- Behind a text that leaves no bracket open the brackets are those of a text of its own. -/
theorem bracketFindings_append {front : List Char} (h : ∀ k, excess k front = 0) (back : List Char) :
    bracketFindings (front ++ back) =
      bracketFindings front ++ (bracketFindings back).map (lowered front.length) := by
  have hdepths := depths_scan_of_closed h
  have hexcess : ∀ k, excess k (front ++ back) = excess k back := fun k => by
    rw [← (tracks_scan (front ++ back)).depth k, ← (tracks_scan back).depth k,
      depths_scan_append hdepths]
  have hclosed : unclosedKinds front = [] :=
    List.filter_eq_nil_iff.mpr fun k _ => by simp [h k]
  have hstrays : ((strayCheck.sweep {} (front ++ back)).map fun p => strayFinding p.1 p.2) =
      ((strayCheck.sweep {} front).map fun p => strayFinding p.1 p.2) ++
        ((strayCheck.sweep {} back).map fun p => strayFinding p.1 p.2).map (lowered front.length) :=
    strayCheck_respects.findings_append hdepths (fun _ _ _ _ => rfl) lowered_strayFinding
  have hend : 0 < back.length → ∀ k n, lowered front.length (unclosedFinding back.length k n) =
      unclosedFinding (front ++ back).length k n := fun hpos k n => by
    rw [List.length_append, lowered_unclosedFinding hpos]
  rw [bracketFindings_eq, bracketFindings_eq, bracketFindings_eq, strayClosers_eq, strayClosers_eq,
    strayClosers_eq, hstrays, unclosedFindings_moved hexcess hend, hclosed, List.map_nil,
    List.append_nil, List.map_append, List.append_assoc]

theorem excess_eq_zero_of_bracketFindings {text : List Char} (h : bracketFindings text = [])
    (k : Bracket) : excess k text = 0 := by
  rw [bracketFindings_eq, List.append_eq_nil_iff, List.map_eq_nil_iff, List.map_eq_nil_iff] at h
  have hk := List.filter_eq_nil_iff.mp h.2 k k.mem_all
  have hnonneg := excess_nonneg k text
  rw [decide_eq_true_eq] at hk
  omega

/-! ### Declarations and arrows -/

theorem lineFeed_mem_of_endsLine {front before after : List Char} {c : Char} (hends : EndsLine front)
    (hcut : front = before ++ c :: after) : '\n' ∈ c :: after := by
  have hlast : front.getLast? = some ((c :: after).getLast (List.cons_ne_nil c after)) := by
    rw [hcut, List.getLast?_append, List.getLast?_eq_some_getLast (List.cons_ne_nil c after)]
    rfl
  rw [← hends _ hlast]
  exact List.getLast_mem _

/-- What stands behind the line of a keyword does not end it. -/
theorem lineIsOver_append {text : List Char} (h : '\n' ∈ text) (more : List Char) :
    lineIsOver (text ++ more) = lineIsOver text := by
  have hgap : isGap = fun c => c == ' ' || c == '\t' := rfl
  have hmem : '\n' ∈ text.dropWhile isGap := by
    rw [← List.takeWhile_append_dropWhile (p := isGap) (l := text), List.mem_append] at h
    refine h.resolve_left fun hgaps => ?_
    exact absurd (List.mem_takeWhile_imp hgaps) (by decide)
  have hne : (text.dropWhile isGap).isEmpty = false := by
    rw [List.isEmpty_eq_false_iff]
    exact List.ne_nil_of_mem hmem
  have hdrop : (text ++ more).dropWhile isGap = text.dropWhile isGap ++ more := by
    rw [List.dropWhile_append, hne]
    rfl
  rw [lineIsOver, lineIsOver, ← hgap, hdrop]
  obtain ⟨c, rest, hrest⟩ := List.exists_cons_of_ne_nil (List.ne_nil_of_mem hmem)
  rw [hrest] at hmem ⊢
  by_cases hreturn : c = '\r'
  · -- the line feed is behind the carriage return
    subst hreturn
    have hback : '\n' ∈ rest := (List.mem_cons.mp hmem).resolve_left (by decide)
    obtain ⟨d, back, rfl⟩ := List.exists_cons_of_ne_nil (List.ne_nil_of_mem hback)
    rfl
  · simp [hreturn]

theorem keywordAt?_append {text : List Char} (h : '\n' ∈ text) (more : List Char) :
    keywordAt? (text ++ more) = (keywordAt? text).map fun p => (p.1, p.2 ++ more) := by
  refine Option.ext fun ⟨k, behind⟩ => ?_
  rw [keywordAt?_eq_some_iff, Option.map_eq_some_iff]
  constructor
  · intro htext
    rcases List.append_eq_append_iff.mp htext with ⟨a, hkeyword, -⟩ | ⟨rest, rfl, rfl⟩
    · -- a keyword does not reach beyond its line
      have hmem : '\n' ∈ k.text.toList := by
        rw [hkeyword]
        exact List.mem_append_left a h
      exact absurd rfl (k.no_newline _ hmem).1
    · exact ⟨(k, rest), keywordAt?_eq_some_iff.mpr rfl, rfl⟩
  · rintro ⟨⟨l, rest⟩, hrest, hp⟩
    obtain ⟨rfl, rfl⟩ := Prod.mk.inj hp
    rw [keywordAt?_eq_some_iff.mp hrest, List.append_assoc]

theorem unfinishedAt?_append {text : List Char} (h : '\n' ∈ text) (before : Option Char)
    (more : List Char) : unfinishedAt? before (text ++ more) = unfinishedAt? before text := by
  rw [unfinishedAt?, unfinishedAt?, keywordAt?_append h]
  cases hkeyword : keywordAt? text with
  | none => rfl
  | some p =>
    have hmem : '\n' ∈ p.2 := by
      rw [keywordAt?_eq_some_iff.mp hkeyword, List.mem_append] at h
      exact h.resolve_left fun hmem => (p.1.no_newline _ hmem).1 rfl
    simp only [Option.map_some, lineIsOver_append hmem]

theorem declarationCheck_respects :
    declarationCheck.Respects fun b b' => b.any isWordChar = b'.any isWordChar where
  step := fun _ _ => rfl
  flag := fun {b b'} text h => by
    show unfinishedAt? b text = unfinishedAt? b' text
    rw [unfinishedAt?, unfinishedAt?, h]

/-- Behind complete lines the declarations are those of a text of its own. -/
theorem declarationFindings_append {front : List Char} (hends : EndsLine front) (back : List Char) :
    declarationFindings (front ++ back) =
      declarationFindings front ++ (declarationFindings back).map (lowered front.length) := by
  have hword : (front.foldl declarationCheck.step none).any isWordChar =
      (none : Option Char).any isWordChar := by
    rw [foldl_declarationCheck]
    cases hlast : front.getLast? with
    | none => rfl
    | some c =>
      obtain rfl := hends c hlast
      decide
  simp only [declarationFindings_eq]
  refine declarationCheck_respects.findings_append hword (fun before c after hcut => ?_) fun n i k => ?_
  · exact unfinishedAt?_append (lineFeed_mem_of_endsLine hends hcut) _ back
  · simp only [lowered, unfinishedFinding, Option.map_some, Nat.cast_add, add_comm (i : Int)]

theorem arrowCheck_respects : arrowCheck.Respects Eq where
  step := by
    rintro s _ c rfl
    rfl
  flag := by
    rintro s _ text rfl
    rfl

/-- Behind complete lines the arrows are those of a text of its own. -/
theorem arrowFindings_append {front : List Char} (hends : EndsLine front) (back : List Char) :
    arrowFindings (front ++ back) =
      arrowFindings front ++ (arrowFindings back).map (lowered front.length) := by
  have hblank : front.foldl blankSoFar true = true := by
    cases front using List.reverseRecOn with
    | nil => rfl
    | append_singleton front c =>
      obtain rfl : c = '\n' := hends c (by rw [List.getLast?_concat]; rfl)
      rw [List.foldl_append]
      simp [blankSoFar, isLineBreak_lineFeed]
  simp only [arrowFindings_eq]
  refine @Check.Respects.findings_append _ _ arrowCheck Eq arrowCheck_respects true front back hblank
    (fun before c after hcut => ?_) (fun i _ => arrowFinding i) fun n i _ => ?_
  · have hprefix : arrow.isPrefixOf (c :: (after ++ back)) = arrow.isPrefixOf (c :: after) := by
      cases after with
      | cons d after => exact arrow_isPrefixOf_append c (List.cons_ne_nil d after) back
      | nil =>
        obtain rfl := List.mem_singleton.mp (lineFeed_mem_of_endsLine hends hcut)
        rw [arrow_isPrefixOf_of_isBlank (by decide), arrow_isPrefixOf_of_isBlank (by decide)]
    simp only [arrowCheck, hprefix]
  · simp only [lowered, arrowFinding, Option.map_some, Nat.cast_add, add_comm (i : Int)]

/-! ### All findings -/

/-- Below complete lines without findings a text has the findings that it has alone, in the same order, and
each further down by what stands above. -/
theorem validate_append {above below : String} (hends : above.toList.getLast? = some '\n')
    (hclean : validate (.text above) = []) :
    validate (.text (above ++ below)) =
      (validate (.text below)).map fun d =>
        { d with offset := d.offset.map (· + (above.length : Int)) } := by
  have hline : EndsLine above.toList := by
    rw [EndsLine, hends]
    rintro c ⟨⟩
    rfl
  have hnone : findings above.toList = [] := hclean
  rw [findings, List.append_eq_nil_iff, List.append_eq_nil_iff] at hnone
  obtain ⟨⟨hbrackets, hdeclarations⟩, harrows⟩ := hnone
  have hclosed := excess_eq_zero_of_bracketFindings hbrackets
  show findings (above ++ below).toList = (findings below.toList).map (lowered above.length)
  rw [String.toList_append, findings, bracketFindings_append hclosed,
    declarationFindings_append hline, arrowFindings_append hline, hbrackets, hdeclarations, harrows,
    String.length_toList, findings, List.map_append, List.map_append]
  rfl

/-- Two lines with a bracket over both are followed by lines with a finding of every check. -/
theorem validate_append_block :
    validate (.text "def f(x) = [\n  x => x]\n") = [] ∧
      validate (.text ("def f(x) = [\n  x => x]\n" ++ "]\nval\n => (")) =
        [strayFinding 23 .bracket, unclosedFinding 34 .parenthesis 1, unfinishedFinding 25 .value,
          arrowFinding 30] := by
  have hclean : validate (.text "def f(x) = [\n  x => x]\n") = [] := by decide
  exact ⟨hclean, (validate_append (by decide) hclean).trans (by decide)⟩

end AnalyzerBridge.Scan
