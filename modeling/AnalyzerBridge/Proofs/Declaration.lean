/-
Which declarations are unfinished.

A declaration is unfinished where its keyword begins a word and the rest of the line is
empty but for spaces and tabs.  The scan looks at one position after the other and never
jumps, so no such place is lost.

* `lineIsOver_iff` — what the check behind a keyword decides;
* `Unfinished`, `unfinishedAt?_iff` — what the check at a position decides;
* `Unfinished.disjoint` — the stretches that unfinished declarations take up do not
  overlap, so a search that goes on behind each of them would find the same;
* `declarationFindings_exact` — the findings are on all unfinished declarations, by
  offset, and on nothing else.
-/
import AnalyzerBridge.Proofs.Relocation

namespace AnalyzerBridge.Scan

open Text

/-! ### One position -/

/-- The end of a line: at most one carriage return, and then a line feed or the end of the text. -/
structure EndsHere (mark rest : List Char) : Prop where
  mark : mark = [] ∨ mark = ['\r']
  rest : rest = [] ∨ rest.head? = some '\n'

/-- An unfinished declaration stands at an offset and takes up `width` characters: the keyword, which does
not continue a word, spaces and tabs, and a carriage return at the end of the line. -/
structure Unfinished (text : List Char) (offset : Nat) (k : Keyword) (width : Nat) : Prop where
  keyword : (text.drop offset).take 3 = k.text.toList
  fresh : offset = 0 ∨ ∃ c, text[offset - 1]? = some c ∧ isWordChar c = false
  ended : ∃ gap mark rest, text.drop (offset + 3) = gap ++ mark ++ rest ∧
    (∀ c ∈ gap, c = ' ' ∨ c = '\t') ∧ EndsHere mark rest ∧ width = 3 + gap.length + mark.length

theorem isGap_iff {c : Char} : isGap c = true ↔ c = ' ' ∨ c = '\t' := by
  rw [isGap, Bool.or_eq_true, beq_iff_eq, beq_iff_eq]

/-- The rest of a line is over exactly if spaces and tabs lead to its end. -/
theorem lineIsOver_iff (text : List Char) :
    lineIsOver text = true ↔ ∃ gap mark rest, text = gap ++ mark ++ rest ∧
      (∀ c ∈ gap, c = ' ' ∨ c = '\t') ∧ EndsHere mark rest := by
  have hgap : isGap = fun c => c == ' ' || c == '\t' := rfl
  rw [lineIsOver, ← hgap]
  constructor
  · intro h
    have hsplit := List.takeWhile_append_dropWhile (p := isGap) (l := text)
    have hblank : ∀ c ∈ text.takeWhile isGap, c = ' ' ∨ c = '\t' := fun c hc =>
      isGap_iff.mp (List.all_eq_true.mp List.all_takeWhile c hc)
    cases hrest : text.dropWhile isGap with
    | nil =>
      rw [hrest, List.append_nil] at hsplit
      exact ⟨_, [], [], by rw [List.append_nil, List.append_nil, hsplit], hblank, Or.inl rfl, Or.inl rfl⟩
    | cons c back =>
      rw [hrest] at hsplit h
      by_cases hreturn : c = '\r'
      · subst hreturn
        refine ⟨_, ['\r'], back, by rw [List.append_assoc]; exact hsplit.symm, hblank, Or.inr rfl, ?_⟩
        simpa using h
      · refine ⟨_, [], c :: back, by rw [List.append_nil]; exact hsplit.symm, hblank, Or.inl rfl, ?_⟩
        simpa [hreturn] using h
  · rintro ⟨gap, mark, rest, rfl, hblank, hmark, hrest⟩
    rw [List.append_assoc, List.dropWhile_append_of_pos fun c hc => isGap_iff.mpr (hblank c hc)]
    -- what ends the line is no gap, so nothing more is dropped
    rcases hrest with rfl | hhead
    · rcases hmark with rfl | rfl <;> rfl
    · obtain ⟨back, rfl⟩ := List.head?_eq_some_iff.mp hhead
      rcases hmark with rfl | rfl <;> rfl

theorem Keyword.length_text (k : Keyword) : k.text.toList.length = 3 := by
  cases k <;> decide

/-- The check flags a cut of a text exactly if an unfinished declaration stands there. -/
theorem unfinishedAt?_iff (before after : List Char) (k : Keyword) :
    unfinishedAt? before.getLast? after = some k ↔
      ∃ width, Unfinished (before ++ after) before.length k width := by
  have hfresh : (before.getLast?.any isWordChar) = false ↔
      before.length = 0 ∨ ∃ c, (before ++ after)[before.length - 1]? = some c ∧ isWordChar c = false := by
    cases before using List.reverseRecOn with
    | nil => simp
    | append_singleton before c => simp
  have hdrop : (before ++ after).drop before.length = after := List.drop_left
  have hbehind : (before ++ after).drop (before.length + 3) = after.drop 3 := by
    rw [List.drop_append]
    simp
  constructor
  · intro h
    cases hkeyword : keywordAt? after with
    | none =>
      rw [(flags_of_no_keyword hkeyword).1] at h
      exact absurd h (by simp)
    | some p =>
      obtain ⟨l, rest⟩ := p
      rw [unfinishedAt?_keyword hkeyword] at h
      obtain rfl := keywordAt?_eq_some_iff.mp hkeyword
      split_ifs at h with hcond
      · obtain rfl := Option.some_inj.mp h
        rw [Bool.and_eq_true, Bool.not_eq_true'] at hcond
        obtain ⟨gap, mark, back, rfl, hblank, hends⟩ := (lineIsOver_iff rest).mp hcond.2
        refine ⟨_, ⟨?_, hfresh.mp hcond.1, gap, mark, back, ?_, hblank, hends, rfl⟩⟩
        · rw [hdrop, ← l.length_text, List.take_left]
        · rw [hbehind, ← l.length_text, List.drop_left]
  · rintro ⟨width, hkeyword, hword, gap, mark, back, hrest, hblank, hends, -⟩
    rw [hdrop] at hkeyword
    rw [hbehind] at hrest
    have hafter : after = k.text.toList ++ after.drop 3 := by
      rw [← hkeyword, List.take_append_drop]
    rw [unfinishedAt?_keyword (keywordAt?_eq_some_iff.mpr hafter), hfresh.mpr hword,
      (lineIsOver_iff _).mpr ⟨gap, mark, back, hrest, hblank, hends⟩]
    rfl

/-! ### Stretches -/

/-- A keyword begins with a letter that it does not hold a second time, and neither does another. -/
theorem Keyword.exists_cons (k : Keyword) :
    ∃ c tail, k.text.toList = c :: tail ∧ (c = 'v' ∨ c = 'd') ∧ ∀ d ∈ tail, d ≠ 'v' ∧ d ≠ 'd' := by
  cases k with
  | value => exact ⟨'v', ['a', 'l'], rfl, Or.inl rfl, by simp⟩
  | function => exact ⟨'d', ['e', 'f'], rfl, Or.inr rfl, by simp⟩

section Stretch

variable {text : List Char} {i j m n : Nat} {k l : Keyword}

theorem Unfinished.getElem? (h : Unfinished text i k m) :
    text[i]? = some 'v' ∨ text[i]? = some 'd' := by
  obtain ⟨c, tail, hcons, hc, -⟩ := k.exists_cons
  have hhead := congrArg List.head? h.keyword
  rw [hcons, List.head?_take, if_neg (by decide), List.head?_drop, List.head?_cons] at hhead
  rw [hhead]
  exact hc.imp (congrArg some) (congrArg some)

theorem Unfinished.lt_length (h : Unfinished text i k m) : i < text.length := by
  rcases h.getElem? with h | h <;> exact (List.getElem?_eq_some_iff.mp h).1

/-- Behind its first letter, what an unfinished declaration takes up begins no keyword. -/
theorem Unfinished.not_initial (h : Unfinished text i k m) (hij : i < j) (hjm : j < i + m) :
    text[j]? ≠ some 'v' ∧ text[j]? ≠ some 'd' := by
  obtain ⟨c, tail, hcons, -, htail⟩ := k.exists_cons
  obtain ⟨gap, mark, rest, hdrop, hgap, hends, rfl⟩ := h.ended
  have htwo : tail.length = 2 := by
    have hthree := k.length_text
    rw [hcons, List.length_cons] at hthree
    omega
  have htext : text.drop i = c :: ((tail ++ gap ++ mark) ++ rest) := by
    rw [← List.take_append_drop 3 (text.drop i), h.keyword, hcons, List.drop_drop, hdrop]
    simp
  obtain ⟨t, rfl⟩ : ∃ t, j = i + (t + 1) := ⟨j - i - 1, by omega⟩
  have hlt : t < (tail ++ gap ++ mark).length := by
    simp only [List.length_append]
    omega
  have hother : ∀ d ∈ tail ++ gap ++ mark, d ≠ 'v' ∧ d ≠ 'd' := by
    intro d hd
    rcases List.mem_append.mp hd with hd | hd
    · rcases List.mem_append.mp hd with hd | hd
      · exact htail d hd
      · rcases hgap d hd with rfl | rfl <;> decide
    · rcases hends.mark with rfl | rfl
      · exact absurd hd (by simp)
      · obtain rfl := List.mem_singleton.mp hd
        decide
  rw [← List.getElem?_drop, htext, List.getElem?_cons_succ, List.getElem?_append_left hlt,
    List.getElem?_eq_getElem hlt]
  obtain ⟨hv, hd⟩ := hother _ (List.getElem_mem hlt)
  exact ⟨fun h => hv (Option.some_inj.mp h), fun h => hd (Option.some_inj.mp h)⟩

/-- Unfinished declarations do not overlap. -/
theorem Unfinished.disjoint (h : Unfinished text i k m) (h' : Unfinished text j l n) (hij : i < j) :
    i + m ≤ j := by
  by_contra hjm
  obtain ⟨hv, hd⟩ := h.not_initial hij (Nat.not_le.mp hjm)
  exact h'.getElem?.elim hv hd

end Stretch

/-! ### All positions -/

theorem mem_sweep_declarationCheck {text : List Char} {i : Nat} {k : Keyword} :
    (i, k) ∈ declarationCheck.sweep none text ↔ ∃ width, Unfinished text i k width := by
  rw [Check.mem_sweep]
  constructor
  · rintro ⟨before, c, after, rfl, rfl, hflag⟩
    rw [foldl_declarationCheck] at hflag
    exact (unfinishedAt?_iff before (c :: after) k).mp hflag
  · rintro ⟨width, h⟩
    have hlt := h.lt_length
    have hlength : (text.take i).length = i := List.length_take_of_le hlt.le
    have hcut : text = text.take i ++ text[i] :: text.drop (i + 1) := by
      rw [← List.drop_eq_getElem_cons hlt, List.take_append_drop]
    refine ⟨text.take i, text[i], text.drop (i + 1), hcut, hlength, ?_⟩
    rw [foldl_declarationCheck]
    refine (unfinishedAt?_iff _ _ k).mpr ⟨width, ?_⟩
    rw [← hcut, hlength]
    exact h

/-- The findings on declarations are on those that are unfinished, each once, by offset and three
characters long, and on nothing else.  The stretches that they take up do not overlap. -/
theorem declarationFindings_exact (text : List Char) :
    ∃ places : List (Nat × Keyword),
      places.Pairwise (fun p q => p.1 < q.1) ∧
      declarationFindings text = places.map (fun p =>
        { message := LooseText.ofString ("Incomplete " ++ p.2.text ++ " declaration")
          offset := some (p.1 : Int)
          length := some 3 }) ∧
      (∀ i k, (i, k) ∈ places ↔ ∃ width, Unfinished text i k width) ∧
      ∀ i j k l m n, Unfinished text i k m → Unfinished text j l n → i < j → i + m ≤ j := by
  refine ⟨declarationCheck.sweep none text, Check.sweep_ascending none text, ?_,
    fun i k => mem_sweep_declarationCheck, fun _ _ _ _ _ _ h h' => h.disjoint h'⟩
  rw [declarationFindings_eq]
  refine List.map_congr_left fun p _ => ?_
  have hlength : ((p.2.text.length : Nat) : Int) = 3 := by
    cases p.2 <;> rfl
  rw [unfinishedFinding, hlength]

end AnalyzerBridge.Scan
