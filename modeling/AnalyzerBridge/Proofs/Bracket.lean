/-
The bracket scan is the analysis of unmatched brackets.

The balance of a kind of bracket is its openers less its closers.  The scan never
sees a balance, it counts; but a counter is the height of the balance above its
lowest value so far, because a stray closer takes both down together.

* `Tracks` — what the counters and the list of stray closers are after a text, in
  terms of the balances of its prefixes, kept by every character (`Tracks.read`);
* `bracketFindings_eq` — the findings, read off the balances;
* `exists_dyckWord_iff` — a kind is balanced if its balance ends at zero and never
  falls below;
* `bracketFindings_unmatched` — which closers and how many openers are reported,
  in which order, when there is nothing to report, and that no kind of bracket has
  a say in the findings on another.

Design notes: the lowest balance is a minimum over all prefixes, the empty one
included, so it is never positive.
-/
import AnalyzerBridge.Scan.Bracket
import Mathlib.Combinatorics.Enumerative.DyckWord
import Mathlib.Data.Finset.Lattice.Fold
import Mathlib.Data.List.Sort

namespace AnalyzerBridge.Scan

/-! ### Balances -/

/-- What a character is to a kind of bracket: a step up, a step down or nothing. -/
def Bracket.step? (k : Bracket) (c : Char) : Option DyckStep :=
  if c = k.opener then some .U else if c = k.closer then some .D else none

/-- A text as one kind of bracket sees it. -/
def projection (k : Bracket) (text : List Char) : List DyckStep :=
  text.filterMap k.step?

/-- The openers of a kind less its closers. -/
def balance (k : Bracket) (text : List Char) : Int :=
  (text.count k.opener : Int) - text.count k.closer

/-- The lowest balance of a kind in front of the first characters of a text, up to `n` of them. -/
def lowest (k : Bracket) (text : List Char) (n : Nat) : Int :=
  (Finset.range (n + 1)).inf' Finset.nonempty_range_add_one fun j => balance k (text.take j)

/-- The height of the balance of a kind above its lowest value. -/
def excess (k : Bracket) (text : List Char) : Int :=
  balance k text - lowest k text text.length

/-- The closer of a kind at an offset takes its balance below every value before. -/
def Unexpected (k : Bracket) (text : List Char) (i : Nat) : Prop :=
  text[i]? = some k.closer ∧ balance k (text.take (i + 1)) < lowest k text i

namespace Bracket

theorem opener_ne_closer (k l : Bracket) : k.opener ≠ l.closer := by
  cases k <;> cases l <;> decide

theorem opened?_eq_some_iff {k : Bracket} {c : Char} : opened? c = some k ↔ c = k.opener := by
  constructor
  · intro h
    have hfound := List.find?_some h
    exact (beq_iff_eq.mp hfound).symm
  · rintro rfl
    cases k <;> rfl

theorem closed?_eq_some_iff {k : Bracket} {c : Char} : closed? c = some k ↔ c = k.closer := by
  constructor
  · intro h
    have hfound := List.find?_some h
    exact (beq_iff_eq.mp hfound).symm
  · rintro rfl
    cases k <;> rfl

theorem mem_all (k : Bracket) : k ∈ all := by
  cases k <;> decide

end Bracket

variable (k : Bracket) (text : List Char) (c : Char)

theorem balance_snoc :
    balance k (text ++ [c]) =
      balance k text + if c = k.opener then 1 else if c = k.closer then -1 else 0 := by
  have hne := k.opener_ne_closer k
  simp only [balance, List.count_append, List.count_singleton, beq_iff_eq]
  by_cases ho : c = k.opener
  · have hc : ¬ c = k.closer := fun h => hne (ho.symm.trans h)
    rw [if_pos ho, if_pos ho, if_neg hc]
    push_cast
    ring
  · rw [if_neg ho, if_neg ho]
    split_ifs <;> push_cast <;> ring

theorem lowest_zero : lowest k text 0 = 0 := by
  simp [lowest, balance]

theorem lowest_succ (n : Nat) :
    lowest k text (n + 1) = min (balance k (text.take (n + 1))) (lowest k text n) := by
  simp only [lowest, Finset.range_add_one (n := n + 1)]
  exact Finset.inf'_insert _ _

theorem lowest_le {j n : Nat} (h : j ≤ n) : lowest k text n ≤ balance k (text.take j) :=
  Finset.inf'_le _ (Finset.mem_range.mpr (Nat.lt_succ_of_le h))

theorem lowest_le_balance : lowest k text text.length ≤ balance k text := by
  have h := lowest_le k text (le_refl text.length)
  rwa [List.take_length] at h

/-- What follows the first characters of a text does not count for their lowest balance. -/
theorem lowest_append (more : List Char) {n : Nat} (h : n ≤ text.length) :
    lowest k (text ++ more) n = lowest k text n := by
  refine Finset.inf'_congr _ rfl fun j hj => ?_
  have hj' : j ≤ text.length := (Nat.lt_succ_iff.mp (Finset.mem_range.mp hj)).trans h
  rw [List.take_append_of_le_length hj']

theorem lowest_snoc :
    lowest k (text ++ [c]) (text ++ [c]).length =
      min (balance k (text ++ [c])) (lowest k text text.length) := by
  rw [List.length_append, List.length_singleton, lowest_succ, lowest_append k text [c] le_rfl,
    List.take_of_length_le (by simp)]

theorem excess_nonneg : 0 ≤ excess k text :=
  sub_nonneg.mpr (lowest_le_balance k text)

/-- A closer that would take the height below zero takes the lowest balance along instead. -/
theorem excess_snoc :
    excess k (text ++ [c]) =
      if c = k.opener then excess k text + 1
      else if c = k.closer then max 0 (excess k text - 1) else excess k text := by
  have hle := lowest_le_balance k text
  simp only [excess, lowest_snoc, balance_snoc]
  split_ifs <;> omega

/-- One more character adds at most one unexpected closer, and none as long as the height is positive. -/
theorem unexpected_snoc (i : Nat) :
    Unexpected k (text ++ [c]) i ↔
      Unexpected k text i ∨ i = text.length ∧ c = k.closer ∧ excess k text = 0 := by
  rcases lt_trichotomy i text.length with hlt | rfl | hgt
  · rw [Unexpected, Unexpected, List.getElem?_append_left hlt,
      List.take_append_of_le_length (Nat.succ_le_of_lt hlt), lowest_append k text [c] hlt.le]
    simp [hlt.ne]
  · have hle := lowest_le_balance k text
    have hnone : ¬ Unexpected k text text.length := by simp [Unexpected]
    rw [or_iff_right hnone, Unexpected, List.getElem?_concat_length,
      List.take_of_length_le (by simp), lowest_append k text [c] le_rfl, balance_snoc]
    constructor
    · rintro ⟨hc, hlow⟩
      obtain rfl := Option.some_inj.mp hc
      rw [if_neg (Ne.symm (k.opener_ne_closer k)), if_pos rfl] at hlow
      exact ⟨rfl, rfl, by rw [excess]; omega⟩
    · rintro ⟨-, rfl, hzero⟩
      rw [excess] at hzero
      rw [if_neg (Ne.symm (k.opener_ne_closer k)), if_pos rfl]
      exact ⟨rfl, by omega⟩
  · have h₁ : (text ++ [c])[i]? = none := List.getElem?_eq_none (by simp; omega)
    have h₂ : text[i]? = none := List.getElem?_eq_none hgt.le
    simp [Unexpected, h₁, h₂, hgt.ne']

theorem lt_length_of_unexpected {i : Nat} (h : Unexpected k text i) : i < text.length :=
  (List.getElem?_eq_some_iff.mp h.1).1

/-! ### What the scan keeps -/

/-- The closer that a character is, if its counter is at zero. -/
def BracketState.stray? (s : BracketState) (c : Char) : Option Bracket :=
  (Bracket.closed? c).filter fun k => s.depths.get k = 0

theorem BracketState.stray?_eq_some_iff {s : BracketState} {c : Char} {k : Bracket} :
    s.stray? c = some k ↔ c = k.closer ∧ s.depths.get k = 0 := by
  simp [stray?, Option.filter_eq_some_iff, Bracket.closed?_eq_some_iff]

theorem Depths.get_set (d : Depths) (k l : Bracket) (n : Nat) :
    (d.set k n).get l = if l = k then n else d.get l := by
  cases k <;> cases l <;> rfl

theorem BracketState.read_offset (s : BracketState) : (s.read c).offset = s.offset + 1 := by
  rw [read]
  split
  · rfl
  · split
    · rfl
    · split <;> rfl

/-- A counter goes up and down with its own brackets, and not below zero. -/
theorem BracketState.read_depth (s : BracketState) :
    (s.read c).depths.get k =
      if c = k.opener then s.depths.get k + 1
      else if c = k.closer then s.depths.get k - 1 else s.depths.get k := by
  rw [read]
  split
  next l hl =>
    obtain rfl := Bracket.opened?_eq_some_iff.mp hl
    rw [Depths.get_set]
    cases k <;> cases l <;> simp [Bracket.opener, Bracket.closer]
  next hopen =>
    have ho : ¬ c = k.opener := fun h => by
      rw [Bracket.opened?_eq_some_iff.mpr h] at hopen
      exact absurd hopen (by simp)
    rw [if_neg ho]
    split
    next hclosed =>
      have hc : ¬ c = k.closer := fun h => by
        rw [Bracket.closed?_eq_some_iff.mpr h] at hclosed
        exact absurd hclosed (by simp)
      rw [if_neg hc]
    next l hl =>
      obtain rfl := Bracket.closed?_eq_some_iff.mp hl
      by_cases hkl : k = l
      · subst hkl
        rw [if_pos rfl]
        split
        next hzero => simp [hzero]
        next => rw [Depths.get_set, if_pos rfl]
      · have hc : ¬ l.closer = k.closer := by
          cases k <;> cases l <;> simp [Bracket.closer] at hkl ⊢
        rw [if_neg hc]
        split
        · rfl
        · rw [Depths.get_set, if_neg hkl]

theorem BracketState.read_strays (s : BracketState) :
    (s.read c).strays = ((s.stray? c).map fun k => (s.offset, k)).toList ++ s.strays := by
  rw [read, stray?]
  split
  next l hl =>
    obtain rfl := Bracket.opened?_eq_some_iff.mp hl
    have hnone : Bracket.closed? l.opener = none := by cases l <;> rfl
    simp [hnone]
  next =>
    split
    next hnone => simp [hnone]
    next l hl =>
      rw [hl, Option.filter_some]
      by_cases hzero : s.depths.get l = 0 <;> simp [hzero]

/-- What the scan holds after a text: each counter is the height of its balance, and the stray closers
are those that nobody expected, the last one first. -/
structure Tracks (text : List Char) (s : BracketState) : Prop where
  offset : s.offset = text.length
  depth : ∀ k, (s.depths.get k : Int) = excess k text
  strays : ∀ i k, (i, k) ∈ s.strays ↔ Unexpected k text i
  descending : s.strays.Pairwise fun p q => q.1 < p.1

/-- Reading a character keeps what the scan holds. -/
theorem Tracks.read {text : List Char} {s : BracketState} (h : Tracks text s) (c : Char) :
    Tracks (text ++ [c]) (s.read c) where
  offset := by
    rw [BracketState.read_offset, h.offset]
    simp
  depth k := by
    have hdepth := h.depth k
    have hnonneg := excess_nonneg k text
    rw [BracketState.read_depth, excess_snoc]
    split_ifs <;> omega
  strays i k := by
    have hmem : (i, k) ∈ ((s.stray? c).map fun k => (s.offset, k)).toList ↔
        i = text.length ∧ c = k.closer ∧ excess k text = 0 := by
      have hzero : s.depths.get k = 0 ↔ excess k text = 0 := by
        rw [← h.depth k]
        exact Int.natCast_eq_zero.symm
      rw [Option.mem_toList, Option.map_eq_some_iff]
      constructor
      · rintro ⟨l, hl, hil⟩
        obtain ⟨rfl, rfl⟩ := Prod.mk.inj hil
        obtain ⟨hc, hl⟩ := BracketState.stray?_eq_some_iff.mp hl
        exact ⟨h.offset, hc, hzero.mp hl⟩
      · rintro ⟨rfl, hc, hl⟩
        exact ⟨k, BracketState.stray?_eq_some_iff.mpr ⟨hc, hzero.mpr hl⟩, by rw [h.offset]⟩
    rw [BracketState.read_strays, List.mem_append, hmem, h.strays, unexpected_snoc, or_comm]
  descending := by
    rw [BracketState.read_strays]
    refine List.pairwise_append.mpr ⟨?_, h.descending, ?_⟩
    · cases (s.stray? c) <;> simp
    -- a closer that is met now stands behind all that were met before
    · rintro p hp ⟨i, k⟩ hq
      have hi := lt_length_of_unexpected k text ((h.strays i k).mp hq)
      rw [Option.mem_toList, Option.map_eq_some_iff] at hp
      obtain ⟨l, -, rfl⟩ := hp
      show i < s.offset
      rwa [h.offset]

theorem scan_snoc : scan (text ++ [c]) = (scan text).read c := by
  rw [scan, scan, List.foldl_append]
  rfl

theorem tracks_scan : Tracks text (scan text) := by
  induction text using List.reverseRecOn with
  | nil =>
    refine ⟨rfl, fun k => ?_, fun i k => ?_, List.Pairwise.nil⟩
    · rw [excess, List.length_nil, lowest_zero]
      cases k <;> rfl
    · simp [scan, Unexpected]
  | append_singleton text c ih =>
    rw [scan_snoc]
    exact ih.read c

/-! ### The findings -/

/-- The stray closers of a text, by offset. -/
def strayClosers (text : List Char) : List (Nat × Bracket) :=
  (scan text).strays.reverse

theorem mem_strayClosers {i : Nat} {k : Bracket} :
    (i, k) ∈ strayClosers text ↔ Unexpected k text i := by
  rw [strayClosers, List.mem_reverse]
  exact (tracks_scan text).strays i k

theorem strayClosers_ascending : (strayClosers text).Pairwise fun p q => p.1 < q.1 :=
  List.pairwise_reverse.mpr (tracks_scan text).descending

/-- The kinds with openers that no closer answers. -/
def unclosedKinds (text : List Char) : List Bracket :=
  Bracket.all.filter fun k => 0 < excess k text

/-- The findings, read off the balances. -/
theorem bracketFindings_eq :
    bracketFindings text = (strayClosers text).map (fun p => strayFinding p.1 p.2) ++
      (unclosedKinds text).map fun k => unclosedFinding text.length k (excess k text).toNat := by
  have h := tracks_scan text
  have hdepth : ∀ k, (scan text).depths.get k = (excess k text).toNat := fun k => by
    rw [← h.depth k, Int.toNat_natCast]
  have hkinds : (Bracket.all.filter fun k => 0 < (scan text).depths.get k) = unclosedKinds text := by
    refine List.filter_congr fun k _ => ?_
    have hk := h.depth k
    rw [decide_eq_decide]
    omega
  rw [bracketFindings, hkinds, h.offset, ← strayClosers]
  simp only [hdepth]

/-! ### Findings by kind -/

/-- The finding is on a stray closer of a kind. -/
def Bracket.reportsStray (k : Bracket) (d : Descriptor) : Bool :=
  d.message == (strayFinding 0 k).message

/-- The finding is on openers of a kind that no closer answers. -/
def Bracket.reportsUnclosed (k : Bracket) (d : Descriptor) : Bool :=
  (LooseText.ofString ("Unclosed " ++ k.name)).isPrefixOf d.message

/-- The finding is on brackets of a kind. -/
def Bracket.reports (k : Bracket) (d : Descriptor) : Bool :=
  k.reportsStray d || k.reportsUnclosed d

theorem reportsStray_stray (k l : Bracket) (i : Nat) :
    k.reportsStray (strayFinding i l) = (l == k) := by
  cases k <;> cases l <;> rfl

theorem reportsUnclosed_stray (k l : Bracket) (i : Nat) :
    k.reportsUnclosed (strayFinding i l) = false := by
  cases k <;> cases l <;> rfl

/-- The words in front of the count tell the kind. -/
theorem message_unclosed (l : Bracket) (size n : Nat) :
    ∃ rest, (unclosedFinding size l n).message =
      LooseText.ofString ("Unclosed " ++ l.name ++ " ") ++ rest := by
  refine ⟨LooseText.ofString (l.opener.toString ++ " (" ++ toString n ++ " unclosed)"), ?_⟩
  simp [unclosedFinding, LooseText.ofString, String.append_assoc]

theorem reportsStray_unclosed (k l : Bracket) (size n : Nat) :
    k.reportsStray (unclosedFinding size l n) = false := by
  obtain ⟨rest, h⟩ := message_unclosed l size n
  rw [Bracket.reportsStray, h]
  cases k <;> cases l <;> rfl

theorem reportsUnclosed_unclosed (k l : Bracket) (size n : Nat) :
    k.reportsUnclosed (unclosedFinding size l n) = (l == k) := by
  obtain ⟨rest, h⟩ := message_unclosed l size n
  rw [Bracket.reportsUnclosed, h]
  cases k <;> cases l <;> rfl

/-- The unclosed kinds have at most one finding each. -/
theorem filter_reportsUnclosed :
    (bracketFindings text).filter k.reportsUnclosed =
      if 0 < excess k text then [unclosedFinding text.length k (excess k text).toNat] else [] := by
  have hstray : ((strayClosers text).map fun p => strayFinding p.1 p.2).filter k.reportsUnclosed = [] := by
    rw [List.filter_map, List.map_eq_nil_iff, List.filter_eq_nil_iff]
    intro p _
    simp [reportsUnclosed_stray]
  have hkind : (unclosedKinds text).filter (fun l => l == k) =
      if 0 < excess k text then [k] else [] := by
    have hone : Bracket.all.filter (fun l => l == k) = [k] := by cases k <;> rfl
    rw [unclosedKinds, List.filter_comm, hone, List.filter_singleton]
    simp
  rw [bracketFindings_eq, List.filter_append, hstray, List.nil_append, List.filter_map]
  simp only [Function.comp_def, reportsUnclosed_unclosed, hkind]
  split_ifs <;> rfl

theorem strayFinding_inj {i j : Nat} {k l : Bracket} :
    strayFinding i k = strayFinding j l ↔ i = j ∧ k = l := by
  constructor
  · intro h
    have hoffset : (i : Int) = j := Option.some_inj.mp (congrArg Descriptor.offset h)
    have hkind := reportsStray_stray l k i
    rw [h, reportsStray_stray, beq_self_eq_true] at hkind
    exact ⟨Int.natCast_inj.mp hoffset, (beq_iff_eq.mp hkind.symm)⟩
  · rintro ⟨rfl, rfl⟩
    rfl

/-- A closer is reported exactly if it is unexpected. -/
theorem stray_mem_bracketFindings {i : Nat} :
    strayFinding i k ∈ bracketFindings text ↔ Unexpected k text i := by
  rw [bracketFindings_eq, List.mem_append, ← mem_strayClosers, List.mem_map, List.mem_map]
  constructor
  · rintro (⟨⟨j, l⟩, hmem, h⟩ | ⟨l, _, h⟩)
    · obtain ⟨rfl, rfl⟩ := strayFinding_inj.mp h
      exact hmem
    · -- only a finding on a closer has a length
      exact absurd (congrArg Descriptor.length h) (by simp [unclosedFinding, strayFinding])
  · exact fun h => Or.inl ⟨(i, k), h, rfl⟩

/-! ### Balanced texts -/

/-- A balance that goes lower than ever before does so at a closer. -/
theorem unexpected_of_lowest_lt {n : Nat} (hn : n < text.length)
    (h : lowest k text (n + 1) < lowest k text n) : Unexpected k text n := by
  have hbefore := lowest_le k text (le_refl n)
  have hstep := balance_snoc k (text.take n) text[n]
  rw [← List.take_succ_eq_append_getElem hn] at hstep
  rw [lowest_succ, min_lt_iff, or_iff_left (lt_irrefl _)] at h
  by_cases hc : text[n] = k.closer
  · exact ⟨by rw [List.getElem?_eq_getElem hn, hc], h⟩
  · exfalso
    rw [if_neg hc] at hstep
    split_ifs at hstep <;> omega

theorem lowest_eq_zero_of_expected (h : ∀ i, ¬ Unexpected k text i) :
    ∀ n ≤ text.length, lowest k text n = 0 := by
  intro n
  induction n with
  | zero => exact fun _ => lowest_zero k text
  | succ n ih =>
    intro hn
    have hle : lowest k text (n + 1) ≤ lowest k text n := by
      rw [lowest_succ]
      exact min_le_right _ _
    have hge := not_lt.mp (mt (unexpected_of_lowest_lt k text hn) (h n))
    rw [le_antisymm hle hge]
    exact ih (Nat.le_of_succ_le hn)

/-- Nothing is unexpected and nothing is left open exactly if the balance ends at zero and never falls
below. -/
theorem expected_iff :
    (∀ i, ¬ Unexpected k text i) ∧ excess k text ≤ 0 ↔
      balance k text = 0 ∧ ∀ n, 0 ≤ balance k (text.take n) := by
  constructor
  · rintro ⟨hexpected, hopen⟩
    have hlow := lowest_eq_zero_of_expected k text hexpected
    have hnonneg : ∀ n, 0 ≤ balance k (text.take n) := by
      intro n
      rcases le_total n text.length with hn | hn
      · rw [← hlow n hn]
        exact lowest_le k text le_rfl
      · rw [List.take_of_length_le hn, ← hlow text.length le_rfl]
        exact lowest_le_balance k text
    rw [excess, hlow text.length le_rfl, sub_zero] at hopen
    have hall := hnonneg text.length
    rw [List.take_length] at hall
    exact ⟨le_antisymm hopen hall, hnonneg⟩
  · rintro ⟨hzero, hnonneg⟩
    have hlow : ∀ n, 0 ≤ lowest k text n := fun n => Finset.le_inf' _ _ fun j _ => hnonneg j
    refine ⟨fun i hi => ?_, ?_⟩
    · have hbelow := hi.2
      have hle := lowest_le k text (Nat.zero_le i)
      have hi' := hnonneg (i + 1)
      rw [List.take_zero] at hle
      have hempty : balance k [] = 0 := by simp [balance]
      omega
    · have hfinal := hlow text.length
      rw [excess, hzero]
      omega

theorem count_projection :
    (projection k text).count .U = text.count k.opener ∧
      (projection k text).count .D = text.count k.closer := by
  have hne := k.opener_ne_closer k
  rw [projection, List.count_filterMap, List.count_filterMap, List.count, List.count]
  refine ⟨List.countP_congr fun c _ => ?_, List.countP_congr fun c _ => ?_⟩
  · simp only [Bracket.step?, beq_iff_eq]
    split_ifs <;> simp_all
  · simp only [Bracket.step?, beq_iff_eq]
    split_ifs with ho hc
    · simp [ho, hne]
    · simp [hc]
    · simp [hc]

theorem balance_eq_projection :
    balance k text = ((projection k text).count .U : Int) - (projection k text).count .D := by
  rw [balance, (count_projection k text).1, (count_projection k text).2]

/-- What a kind sees of the first characters of a text is the front of what it sees of the text. -/
theorem exists_projection_take (i : Nat) :
    ∃ n, (projection k text).take i = projection k (text.take n) := by
  induction text generalizing i with
  | nil => exact ⟨0, by simp [projection]⟩
  | cons c rest ih =>
    cases hstep : k.step? c with
    | none =>
      obtain ⟨n, hn⟩ := ih i
      refine ⟨n + 1, ?_⟩
      simpa only [projection, List.take_succ_cons, List.filterMap_cons, hstep] using hn
    | some s =>
      cases i with
      | zero => exact ⟨0, by simp [projection]⟩
      | succ i =>
        obtain ⟨n, hn⟩ := ih i
        refine ⟨n + 1, ?_⟩
        simpa only [projection, List.take_succ_cons, List.filterMap_cons, hstep, List.cons.injEq,
          true_and] using hn

theorem projection_take (n : Nat) :
    projection k (text.take n) = (projection k text).take (projection k (text.take n)).length :=
  List.prefix_iff_eq_take.mp ((List.take_prefix n text).filterMap k.step?)

/-- A text is balanced to a kind exactly if its balance ends at zero and never falls below. -/
theorem exists_dyckWord_iff :
    (∃ w : DyckWord, w.toList = projection k text) ↔
      balance k text = 0 ∧ ∀ n, 0 ≤ balance k (text.take n) := by
  constructor
  · rintro ⟨w, hw⟩
    constructor
    · have heven := w.count_U_eq_count_D
      rw [hw] at heven
      rw [balance_eq_projection, heven, sub_self]
    · intro n
      have hprefix := w.count_D_le_count_U (projection k (text.take n)).length
      rw [hw, ← projection_take] at hprefix
      rw [balance_eq_projection]
      omega
  · rintro ⟨hzero, hnonneg⟩
    rw [balance_eq_projection] at hzero
    refine ⟨⟨projection k text, by omega, fun i => ?_⟩, rfl⟩
    obtain ⟨n, hn⟩ := exists_projection_take k text i
    have hprefix := hnonneg n
    rw [balance_eq_projection, ← hn] at hprefix
    omega

theorem bracketFindings_eq_nil_iff :
    bracketFindings text = [] ↔ ∀ k : Bracket, ∃ w : DyckWord, w.toList = projection k text := by
  have hstray : strayClosers text = [] ↔ ∀ k i, ¬ Unexpected k text i := by
    rw [List.eq_nil_iff_forall_not_mem]
    constructor
    · exact fun h k i hi => h (i, k) ((mem_strayClosers text).mpr hi)
    · exact fun h p hp => h p.2 p.1 ((mem_strayClosers text).mp hp)
  have hopen : unclosedKinds text = [] ↔ ∀ k, excess k text ≤ 0 := by
    rw [unclosedKinds, List.filter_eq_nil_iff]
    constructor
    · exact fun h k => by simpa using h k k.mem_all
    · exact fun h k _ => by simpa using h k
  rw [bracketFindings_eq, List.append_eq_nil_iff, List.map_eq_nil_iff, List.map_eq_nil_iff, hstray,
    hopen, ← forall_and]
  exact forall_congr' fun k => (expected_iff k text).trans (exists_dyckWord_iff k text).symm

/-! ### One kind at a time -/

/-- The offsets of the stray closers of a kind. -/
def strayOffsets (k : Bracket) (text : List Char) : List Nat :=
  ((strayClosers text).filter fun p => p.2 == k).map Prod.fst

theorem mem_strayOffsets {i : Nat} : i ∈ strayOffsets k text ↔ Unexpected k text i := by
  rw [← mem_strayClosers, strayOffsets, List.mem_map]
  constructor
  · rintro ⟨⟨j, l⟩, h, rfl⟩
    obtain ⟨hmem, hkind⟩ := List.mem_filter.mp h
    rwa [← beq_iff_eq.mp hkind]
  · exact fun h => ⟨(i, k), List.mem_filter.mpr ⟨h, beq_self_eq_true k⟩, rfl⟩

theorem strayOffsets_ascending : (strayOffsets k text).Pairwise (· < ·) :=
  List.pairwise_map.mpr ((strayClosers_ascending text).filter _)

theorem filter_reports :
    (bracketFindings text).filter k.reports =
      (strayOffsets k text).map (fun i => strayFinding i k) ++
        if 0 < excess k text then [unclosedFinding text.length k (excess k text).toNat] else [] := by
  have hstray : ((strayClosers text).map fun p => strayFinding p.1 p.2).filter k.reports =
      (strayOffsets k text).map fun i => strayFinding i k := by
    rw [List.filter_map, strayOffsets, List.map_map]
    have hkind : (k.reports ∘ fun p : Nat × Bracket => strayFinding p.1 p.2) = fun p => p.2 == k := by
      funext p
      simp [Bracket.reports, reportsStray_stray, reportsUnclosed_stray]
    rw [hkind]
    refine List.map_congr_left fun p hp => ?_
    obtain rfl := beq_iff_eq.mp (List.mem_filter.mp hp).2
    rfl
  -- among the other findings, those on the kind are those on its open brackets
  have hopen : ((unclosedKinds text).map fun l =>
        unclosedFinding text.length l (excess l text).toNat).filter k.reports =
      (bracketFindings text).filter k.reportsUnclosed := by
    rw [bracketFindings_eq, List.filter_append, List.filter_map, List.filter_map, List.filter_map]
    simp [Function.comp_def, Bracket.reports, reportsStray_unclosed, reportsUnclosed_stray]
  rw [← filter_reportsUnclosed, ← hopen, ← hstray, ← List.filter_append, ← bracketFindings_eq]

section
variable {k : Bracket} {text other : List Char} (h : other.map k.step? = text.map k.step?)
include h

theorem length_eq_of_steps : other.length = text.length := by
  have hlength := congrArg List.length h
  rwa [List.length_map, List.length_map] at hlength

theorem balance_take_of_steps (n : Nat) : balance k (other.take n) = balance k (text.take n) := by
  have hseen : ∀ t : List Char, projection k t = (t.map k.step?).filterMap id := fun t => by
    rw [List.filterMap_map]
    rfl
  rw [balance_eq_projection, balance_eq_projection, hseen, hseen, List.map_take, List.map_take, h]

theorem lowest_of_steps (n : Nat) : lowest k other n = lowest k text n :=
  Finset.inf'_congr _ rfl fun j _ => balance_take_of_steps h j

theorem excess_of_steps : excess k other = excess k text := by
  have hbalance := balance_take_of_steps h text.length
  rw [List.take_length, ← length_eq_of_steps h, List.take_length] at hbalance
  rw [excess, excess, hbalance, lowest_of_steps h, length_eq_of_steps h]

theorem unexpected_of_steps (i : Nat) : Unexpected k other i ↔ Unexpected k text i := by
  have hcloser : ∀ t : List Char, t[i]? = some k.closer ↔ (t.map k.step?)[i]? = some (some .D) := by
    intro t
    have hdown : ∀ c, k.step? c = some .D ↔ c = k.closer := fun c => by
      rw [Bracket.step?]
      split_ifs with ho hc
      · simp [ho, k.opener_ne_closer k]
      · simp [hc]
      · simp [hc]
    rw [List.getElem?_map]
    cases t[i]? with
    | none => simp
    | some c => simp [hdown]
  rw [Unexpected, Unexpected, hcloser, hcloser, h, balance_take_of_steps h, lowest_of_steps h]

/-- Two texts that look alike to a kind have the same findings on it. -/
theorem filter_reports_of_steps :
    (bracketFindings other).filter k.reports = (bracketFindings text).filter k.reports := by
  have hoffsets : strayOffsets k other = strayOffsets k text := by
    refine (strayOffsets_ascending k other).eq_of_mem_iff (strayOffsets_ascending k text) fun i => ?_
    rw [mem_strayOffsets, mem_strayOffsets, unexpected_of_steps h]
  rw [filter_reports, filter_reports, hoffsets, excess_of_steps h, length_eq_of_steps h]

end

/-- The findings of the bracket scan: a closer is reported at its offset if it takes the balance of its
kind lower than ever before; a kind is reported once, at the last character, if its balance ends above
its lowest value, with the difference; closers come first, by offset, then the kinds in their order, and
nothing else.  So nothing is reported exactly if every kind sees a balanced word, and what a text has of
other kinds has no influence on the findings on a kind. -/
theorem bracketFindings_unmatched (text : List Char) :
    (∀ k i, strayFinding i k ∈ bracketFindings text ↔
      text[i]? = some k.closer ∧ balance k (text.take (i + 1)) < lowest k text i) ∧
    (∀ k, (bracketFindings text).filter k.reportsUnclosed =
      if 0 < balance k text - lowest k text text.length then
        [unclosedFinding text.length k (balance k text - lowest k text text.length).toNat]
      else []) ∧
    (∃ strays : List (Nat × Bracket), strays.Pairwise (fun p q => p.1 < q.1) ∧
      bracketFindings text = strays.map (fun p => strayFinding p.1 p.2) ++
        ([Bracket.brace, .parenthesis, .bracket].filter fun k =>
          0 < balance k text - lowest k text text.length).map fun k =>
            unclosedFinding text.length k (balance k text - lowest k text text.length).toNat) ∧
    (bracketFindings text = [] ↔ ∀ k : Bracket, ∃ w : DyckWord, w.toList = projection k text) ∧
    ∀ (k : Bracket) (other : List Char), other.map k.step? = text.map k.step? →
      (bracketFindings other).filter k.reports = (bracketFindings text).filter k.reports :=
  ⟨fun k _ => stray_mem_bracketFindings k text, fun k => filter_reportsUnclosed k text,
    ⟨strayClosers text, strayClosers_ascending text, bracketFindings_eq text⟩,
    bracketFindings_eq_nil_iff text, fun _ _ h => filter_reports_of_steps h⟩

/-- A closer in front of the opener of its kind leaves both unmatched, whatever stands between. -/
example : bracketFindings [')', Bracket.opener .brace, Bracket.closer .brace, '('] =
    [strayFinding 0 .parenthesis, unclosedFinding 4 .parenthesis 1] := by decide

end AnalyzerBridge.Scan
