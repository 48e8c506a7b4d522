/-
The findings on brackets are a smallest repair.

Without its stray closers, and with a closer at its end for each opener that none
answers, a text has no findings on brackets.  No text without findings is nearer to it,
because a character belongs to one kind of bracket, and with it or without it the kind
has one unmatched bracket more or less.

* `unmatched_insert`, `defects_insert` — what one character does to the number of
  unmatched brackets;
* `defects_le_of_edits` — so as many edits are needed as brackets are unmatched;
* `defects_eq` — the unmatched brackets are the stray closers and the openers that no
  closer answers;
* `edits_repaired`, `defects_repaired` — that many edits are enough;
* `bracketFindings_repair` — the two together, about what the scan reports.

Design notes: the unmatched brackets of a kind are counted by its balance and its lowest
balance alone, so the scan has no part in the lower bound.
-/
import AnalyzerBridge.Proofs.Bracket
import Mathlib.Order.Bounds.Defs

namespace AnalyzerBridge.Scan

/-! ### Texts put together -/

section Append

variable (k : Bracket) (front back : List Char)

theorem balance_append : balance k (front ++ back) = balance k front + balance k back := by
  simp only [balance, List.count_append]
  push_cast
  ring

/-- A text that goes on starts from the balance that it has reached. -/
theorem lowest_length_append :
    lowest k (front ++ back) (front ++ back).length =
      min (lowest k front front.length) (balance k front + lowest k back back.length) := by
  induction back using List.reverseRecOn with
  | nil =>
    rw [List.append_nil, List.length_nil, lowest_zero, add_zero]
    exact (min_eq_left (lowest_le_balance k front)).symm
  | append_singleton back c ih =>
    rw [← List.append_assoc, lowest_snoc, ih, lowest_snoc, List.append_assoc, balance_append]
    omega

theorem lowest_length_nonpos : lowest k front front.length ≤ 0 := by
  have h := lowest_le k front (Nat.zero_le front.length)
  rwa [List.take_zero, balance, List.count_nil, List.count_nil] at h

end Append

/-! ### Unmatched brackets -/

/-- The brackets of a kind without a partner: the closers that take the balance lower than ever before,
and the openers above the lowest balance. -/
def unmatched (k : Bracket) (text : List Char) : Int :=
  excess k text - lowest k text text.length

/-- The brackets of all kinds without a partner. -/
def defects (text : List Char) : Int :=
  (Bracket.all.map fun k => unmatched k text).sum

theorem defects_def (text : List Char) :
    defects text = unmatched .brace text + unmatched .parenthesis text + unmatched .bracket text := by
  simp only [defects, Bracket.all, List.map_cons, List.map_nil, List.sum_cons, List.sum_nil]
  ring

/-- A character has a place in the brackets of a kind. -/
def Bracket.owns (k : Bracket) (c : Char) : Prop :=
  c = k.opener ∨ c = k.closer

theorem Bracket.owns_unique {k l : Bracket} {c : Char} (hk : k.owns c) (hl : l.owns c) : k = l := by
  rcases hk with rfl | rfl
  · rcases hl with h | h
    · exact Option.some_inj.mp ((opened?_eq_some_iff.mpr rfl).symm.trans (opened?_eq_some_iff.mpr h))
    · exact absurd h (k.opener_ne_closer l)
  · rcases hl with h | h
    · exact absurd h.symm (l.opener_ne_closer k)
    · exact Option.some_inj.mp ((closed?_eq_some_iff.mpr rfl).symm.trans (closed?_eq_some_iff.mpr h))

theorem balance_singleton_of_not_owns {k : Bracket} {c : Char} (h : ¬ k.owns c) :
    balance k [c] = 0 := by
  obtain ⟨hopener, hcloser⟩ := not_or.mp h
  simp [balance, hopener, hcloser]

section Insert

variable (k : Bracket) (before after : List Char) (c : Char)

theorem balance_singleton_natAbs_le : (balance k [c]).natAbs ≤ 1 := by
  have h := balance_snoc k [] c
  have hnil : balance k [] = 0 := by simp [balance]
  rw [List.nil_append, hnil] at h
  split_ifs at h <;> omega

theorem lowest_singleton : lowest k [c] [c].length = min (balance k [c]) 0 := by
  have h := lowest_snoc k [] c
  rwa [List.nil_append, List.length_nil, lowest_zero] at h

/-- A character takes along or leaves behind no more brackets than it is. -/
theorem unmatched_insert :
    (unmatched k (before ++ c :: after) - unmatched k (before ++ after)).natAbs ≤
      (balance k [c]).natAbs := by
  have hone := balance_singleton_natAbs_le k c
  have hlow := lowest_singleton k c
  have hafter := lowest_length_nonpos k after
  rw [← List.singleton_append]
  simp only [unmatched, excess, lowest_length_append, balance_append]
  omega

/-- With a character or without it, the number of brackets without a partner differs by one at most. -/
theorem defects_insert :
    (defects (before ++ c :: after) - defects (before ++ after)).natAbs ≤ 1 := by
  have hbrace := unmatched_insert .brace before after c
  have hparenthesis := unmatched_insert .parenthesis before after c
  have hbracket := unmatched_insert .bracket before after c
  rw [defects_def, defects_def]
  -- only the kind that owns the character may change
  by_cases howner : ∃ k : Bracket, k.owns c
  · obtain ⟨k, hk⟩ := howner
    have hother : ∀ l : Bracket, l ≠ k → balance l [c] = 0 := fun l hl =>
      balance_singleton_of_not_owns fun howns => hl (Bracket.owns_unique howns hk)
    have hone := balance_singleton_natAbs_le k c
    cases k with
    | brace =>
      rw [hother .parenthesis (by decide)] at hparenthesis
      rw [hother .bracket (by decide)] at hbracket
      omega
    | parenthesis =>
      rw [hother .brace (by decide)] at hbrace
      rw [hother .bracket (by decide)] at hbracket
      omega
    | bracket =>
      rw [hother .brace (by decide)] at hbrace
      rw [hother .parenthesis (by decide)] at hparenthesis
      omega
  · have hnone : ∀ k : Bracket, balance k [c] = 0 := fun k =>
      balance_singleton_of_not_owns fun h => howner ⟨k, h⟩
    rw [hnone] at hbrace hparenthesis hbracket
    omega

end Insert

/-! ### Edits -/

/-- One text becomes another by so many insertions and deletions of single characters. -/
inductive Edits : Nat → List Char → List Char → Prop where
  | refl (text : List Char) : Edits 0 text text
  | insert {n : Nat} {text before after : List Char} (h : Edits n text (before ++ after)) (c : Char) :
      Edits (n + 1) text (before ++ c :: after)
  | delete {n : Nat} {text before after : List Char} {c : Char}
      (h : Edits n text (before ++ c :: after)) : Edits (n + 1) text (before ++ after)

namespace Edits

variable {n : Nat} {text edited : List Char}

theorem append (h : Edits n text edited) (more : List Char) :
    Edits n (text ++ more) (edited ++ more) := by
  induction h with
  | refl text => exact refl _
  | insert h c ih =>
    rw [List.append_assoc] at ih
    rw [List.append_assoc, List.cons_append]
    exact ih.insert c
  | delete h ih =>
    rw [List.append_assoc, List.cons_append] at ih
    rw [List.append_assoc]
    exact ih.delete

theorem insertAll (h : Edits n text edited) (more : List Char) :
    Edits (n + more.length) text (edited ++ more) := by
  induction more using List.reverseRecOn with
  | nil => rwa [List.append_nil]
  | append_singleton more c ih =>
    rw [← List.append_nil (edited ++ more)] at ih
    rw [List.length_append, List.length_singleton, ← List.append_assoc]
    exact ih.insert c

end Edits

/-- As many edits are needed as brackets are unmatched. -/
theorem defects_le_of_edits {n : Nat} {text edited : List Char} (h : Edits n text edited) :
    defects text ≤ n + defects edited := by
  induction h with
  | refl text => simp
  | @insert n text before after h c ih =>
    have hstep := defects_insert before after c
    push_cast
    omega
  | @delete n text before after c h ih =>
    have hstep := defects_insert before after c
    push_cast
    omega

/-! ### What is reported -/

section Reported

variable (text : List Char) (c : Char)

/-- The kind of which a character is one closer too many behind a text. -/
def strayAfter? : Option Bracket :=
  (scan text).stray? c

theorem strayAfter?_eq_some_iff {k : Bracket} :
    strayAfter? text c = some k ↔ c = k.closer ∧ excess k text = 0 := by
  rw [strayAfter?, BracketState.stray?_eq_some_iff, ← (tracks_scan text).depth k,
    Int.natCast_eq_zero]

theorem strayClosers_snoc :
    strayClosers (text ++ [c]) =
      strayClosers text ++ ((strayAfter? text c).map fun k => (text.length, k)).toList := by
  rw [strayClosers, scan_snoc, BracketState.read_strays, (tracks_scan text).offset, List.reverse_append,
    strayClosers, strayAfter?]
  cases (scan text).stray? c <;> rfl

theorem lowest_snoc_eq (k : Bracket) :
    lowest k (text ++ [c]) (text ++ [c]).length =
      lowest k text text.length - if strayAfter? text c = some k then 1 else 0 := by
  have hle := lowest_le_balance k text
  have hne := k.opener_ne_closer k
  have hstray := strayAfter?_eq_some_iff text c (k := k)
  rw [excess] at hstray
  rw [lowest_snoc, balance_snoc]
  by_cases hcloser : c = k.closer
  · subst hcloser
    rw [if_neg hne.symm, if_pos rfl]
    split_ifs with h
    · have hzero := (hstray.mp h).2
      omega
    · have hpos : ¬ balance k text - lowest k text text.length = 0 := fun hzero =>
        h (hstray.mpr ⟨rfl, hzero⟩)
      omega
  · rw [if_neg hcloser, if_neg fun h => hcloser (hstray.mp h).1]
    split_ifs <;> omega

theorem length_strayClosers :
    ((strayClosers text).length : Int) =
      -(Bracket.all.map fun k => lowest k text text.length).sum := by
  induction text using List.reverseRecOn with
  | nil => simp [strayClosers, scan, lowest_zero]
  | append_singleton text c ih =>
    rw [strayClosers_snoc, List.length_append]
    simp only [lowest_snoc_eq]
    push_cast
    rw [ih]
    simp only [Bracket.all, List.map_cons, List.map_nil, List.sum_cons, List.sum_nil]
    cases strayAfter? text c with
    | none => simp
    | some k =>
      cases k <;> simp
      all_goals ring

/-- The unmatched openers of the kinds that have any. -/
def unclosed : List (Bracket × Nat) :=
  (unclosedKinds text).map fun k => (k, (excess k text).toNat)

theorem sum_unclosed (f : Bracket → Nat → Nat) (hzero : ∀ k, f k 0 = 0) :
    ((unclosed text).map fun p => f p.1 p.2).sum =
      (Bracket.all.map fun k => f k (excess k text).toNat).sum := by
  have hnone : ∀ k, ¬ 0 < excess k text → f k (excess k text).toNat = 0 := by
    intro k h
    rw [Int.toNat_of_nonpos (not_lt.mp h)]
    exact hzero k
  rw [unclosed, unclosedKinds, List.map_map]
  induction Bracket.all with
  | nil => rfl
  | cons k kinds ih =>
    rw [List.filter_cons, List.map_cons, List.sum_cons]
    by_cases hopen : 0 < excess k text
    · rw [if_pos (by simpa using hopen), List.map_cons, List.sum_cons, ih]
      rfl
    · rw [if_neg (by simpa using hopen), ih, hnone k hopen, Nat.zero_add]

/-- The unmatched brackets are the stray closers and the openers that no closer answers. -/
theorem defects_eq :
    defects text = (strayClosers text).length + ((unclosed text).map Prod.snd).sum := by
  have hopen := sum_unclosed text (fun _ n => n) fun _ => rfl
  have hexcess : ∀ k, ((excess k text).toNat : Int) = excess k text := fun k =>
    Int.toNat_of_nonneg (excess_nonneg k text)
  have hsnd : ((unclosed text).map Prod.snd).sum = ((unclosed text).map fun p => p.2).sum := rfl
  rw [length_strayClosers, hsnd, hopen, defects]
  simp only [unmatched, Bracket.all, List.map_cons, List.map_nil, List.sum_cons, List.sum_nil]
  push_cast
  simp only [hexcess]
  ring

/-- There is nothing to report exactly if every bracket has a partner. -/
theorem bracketFindings_eq_nil_iff_defects : bracketFindings text = [] ↔ defects text = 0 := by
  rw [bracketFindings_eq, List.append_eq_nil_iff, List.map_eq_nil_iff, List.map_eq_nil_iff, defects_eq,
    ← List.length_eq_zero_iff]
  have hsum : unclosedKinds text = [] ↔ ((unclosed text).map Prod.snd).sum = 0 := by
    rw [List.sum_eq_zero_iff, unclosed, List.map_map, List.forall_mem_map]
    constructor
    · intro h
      simp [h]
    · intro h
      rw [List.eq_nil_iff_forall_not_mem]
      intro k hk
      have hpos := (List.mem_filter.mp hk).2
      have hzero := h k hk
      simp only [Function.comp_apply, decide_eq_true_eq] at hpos hzero
      omega
  rw [hsum]
  omega

end Reported

/-! ### The repair -/

/-- A text without the characters at some offsets. -/
def without (offsets : List Nat) (text : List Char) : List Char :=
  (text.zipIdx.filter fun p => !offsets.contains p.2).map Prod.fst

/-- The closers that numbers of openers call for. -/
def answering (openers : List (Bracket × Nat)) : List Char :=
  openers.flatMap fun p => List.replicate p.2 p.1.closer

section Repair

variable (text : List Char) (c : Char)

/-- A text without its stray closers. -/
def kept : List Char :=
  without ((strayClosers text).map Prod.fst) text

theorem without_snoc (offsets : List Nat) :
    without offsets (text ++ [c]) =
      without offsets text ++ if text.length ∈ offsets then [] else [c] := by
  rw [without, List.zipIdx_append, List.filter_append, List.map_append, without]
  congr 1
  split_ifs with h <;> simp [h]

/-- Offsets behind a text do not matter to it. -/
theorem without_append {offsets more : List Nat} (h : ∀ i ∈ more, text.length ≤ i) :
    without (offsets ++ more) text = without offsets text := by
  rw [without, without]
  congr 1
  refine List.filter_congr fun p hp => ?_
  have hlt : p.2 < text.length := by
    simpa using List.snd_lt_of_mem_zipIdx hp
  have hmore : more.contains p.2 = false := by
    rw [Bool.eq_false_iff, ne_eq, List.contains_iff_mem]
    exact fun hmem => absurd (h p.2 hmem) (Nat.not_le.mpr hlt)
  rw [List.contains_append, hmore, Bool.or_false]

theorem lt_of_mem_strayOffsets {i : Nat} (h : i ∈ (strayClosers text).map Prod.fst) :
    i < text.length := by
  obtain ⟨⟨i, k⟩, hmem, rfl⟩ := List.mem_map.mp h
  exact lt_length_of_unexpected k text ((mem_strayClosers text).mp hmem)

theorem kept_snoc :
    kept (text ++ [c]) = kept text ++ if (strayAfter? text c).isSome then [] else [c] := by
  have hnew : text.length ∉ (strayClosers text).map Prod.fst := fun h =>
    absurd (lt_of_mem_strayOffsets text h) (lt_irrefl _)
  rw [kept, strayClosers_snoc, List.map_append, without_snoc]
  cases strayAfter? text c with
  | none =>
    simp only [Option.map_none, Option.toList_none, List.map_nil, List.append_nil]
    rw [if_neg hnew, if_neg (by simp), kept]
  | some k =>
    simp only [Option.map_some, Option.toList_some, List.map_cons, List.map_nil]
    rw [without_append text (by simp), if_pos (by simp), if_pos (by simp), kept]

/-- Without its stray closers a text has the balance that its counters show, and never one below zero. -/
theorem balance_kept (k : Bracket) :
    balance k (kept text) = excess k text ∧ lowest k (kept text) (kept text).length = 0 := by
  induction text using List.reverseRecOn with
  | nil =>
    have hnil : kept [] = [] := rfl
    rw [hnil, excess, List.length_nil, lowest_zero]
    simp
  | append_singleton text c ih =>
    obtain ⟨hbalance, hlow⟩ := ih
    have hnonneg := excess_nonneg k text
    have hne := k.opener_ne_closer k
    rw [kept_snoc, excess_snoc]
    cases hstray : strayAfter? text c with
    | some l =>
      -- the character is dropped, and its kind stays at zero
      obtain ⟨rfl, hzero⟩ := (strayAfter?_eq_some_iff text c).mp hstray
      rw [if_pos Option.isSome_some, List.append_nil, if_neg (k.opener_ne_closer l).symm, hbalance]
      refine ⟨?_, hlow⟩
      split_ifs with hcloser
      · obtain rfl : l = k := Bracket.owns_unique (Or.inr rfl) (Or.inr hcloser)
        rw [hzero]
        rfl
      · rfl
    | none =>
      have hpos : c = k.closer → excess k text ≠ 0 := fun hcloser hzero => by
        have hsome := (strayAfter?_eq_some_iff text c).mpr ⟨hcloser, hzero⟩
        rw [hstray] at hsome
        exact absurd hsome (by simp)
      rw [if_neg (by simp), lowest_snoc, hlow, balance_snoc, hbalance]
      split_ifs with hopener hcloser
      · omega
      · have := hpos hcloser
        omega
      · omega

theorem edits_kept : Edits (strayClosers text).length text (kept text) := by
  induction text using List.reverseRecOn with
  | nil => exact Edits.refl []
  | append_singleton text c ih =>
    rw [kept_snoc, strayClosers_snoc]
    cases strayAfter? text c with
    | none => simpa using ih.append [c]
    | some k => simpa using (ih.append [c]).delete

theorem count_answering (k : Bracket) :
    (answering (unclosed text)).count k.closer = (excess k text).toNat := by
  have hsum := sum_unclosed text (fun l n => (List.replicate n l.closer).count k.closer) fun _ => rfl
  rw [answering, List.count_flatMap]
  refine hsum.trans ?_
  simp only [Bracket.all, List.map_cons, List.map_nil, List.sum_cons, List.sum_nil, List.count_replicate]
  cases k <;> simp [Bracket.closer]

theorem lowest_of_no_opener {k : Bracket} (h : ∀ c ∈ text, c ≠ k.opener) :
    lowest k text text.length = balance k text := by
  induction text using List.reverseRecOn with
  | nil => simp [lowest_zero, balance]
  | append_singleton text c ih =>
    have hlow := ih fun d hd => h d (List.mem_append_left _ hd)
    have hc := h c (by simp)
    rw [lowest_snoc, hlow, balance_snoc, if_neg hc]
    split_ifs <;> omega

/-- A text without its stray closers, and with the closers that are missing. -/
def repaired : List Char :=
  kept text ++ answering (unclosed text)

theorem length_answering (openers : List (Bracket × Nat)) :
    (answering openers).length = (openers.map Prod.snd).sum := by
  rw [answering, List.length_flatMap]
  simp

theorem edits_repaired :
    Edits ((strayClosers text).length + ((unclosed text).map Prod.snd).sum) text (repaired text) := by
  rw [← length_answering]
  exact (edits_kept text).insertAll _

theorem opener_notMem_answering (k : Bracket) (openers : List (Bracket × Nat)) :
    ∀ c ∈ answering openers, c ≠ k.opener := by
  intro c hc
  obtain ⟨p, -, hp⟩ := List.mem_flatMap.mp hc
  obtain rfl := List.eq_of_mem_replicate hp
  exact (k.opener_ne_closer p.1).symm

theorem defects_repaired : defects (repaired text) = 0 := by
  have hkind : ∀ k, unmatched k (repaired text) = 0 := by
    intro k
    obtain ⟨hbalance, hlow⟩ := balance_kept text k
    have hnone := opener_notMem_answering k (unclosed text)
    have hclosers : balance k (answering (unclosed text)) = -excess k text := by
      rw [balance, count_answering, List.count_eq_zero.mpr fun h => hnone _ h rfl,
        Int.toNat_of_nonneg (excess_nonneg k text)]
      omega
    have hlast := lowest_of_no_opener _ hnone
    rw [unmatched, excess, repaired, lowest_length_append, balance_append, hlow, hlast, hbalance, hclosers]
    omega
  rw [defects_def, hkind, hkind, hkind]
  rfl

end Repair

/-- Deleting the stray closers that are reported, and appending the number of closers that is reported for
each unclosed kind, leaves a text with nothing to report; and this is the least number of insertions and
deletions of single characters after which there is nothing to report. -/
theorem bracketFindings_repair (text : List Char) :
    ∃ (strays : List (Nat × Bracket)) (openers : List (Bracket × Nat)),
      bracketFindings text = strays.map (fun p => strayFinding p.1 p.2) ++
        openers.map (fun p => unclosedFinding text.length p.1 p.2) ∧
      bracketFindings (without (strays.map Prod.fst) text ++
        openers.flatMap fun p => List.replicate p.2 p.1.closer) = [] ∧
      IsLeast {n | ∃ edited, Edits n text edited ∧ bracketFindings edited = []}
        (strays.length + (openers.map Prod.snd).sum) := by
  have hclean := (bracketFindings_eq_nil_iff_defects (repaired text)).mpr (defects_repaired text)
  refine ⟨strayClosers text, unclosed text, ?_, hclean, ⟨_, edits_repaired text, hclean⟩, ?_⟩
  · rw [bracketFindings_eq, unclosed, List.map_map]
    rfl
  · rintro n ⟨edited, hedits, hnone⟩
    have hleast := defects_le_of_edits hedits
    rw [(bracketFindings_eq_nil_iff_defects edited).mp hnone, defects_eq] at hleast
    omega

end AnalyzerBridge.Scan
