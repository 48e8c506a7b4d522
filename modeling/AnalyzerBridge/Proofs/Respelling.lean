/-
The scan of a text with its newlines spelled as `\r\n`.

A text without carriage returns comes back from that spelling once its newlines are unified,
and nothing that is flagged is a newline, so every finding has one place in both.

* `Text.unifyNewlines_pairNewlines` — unifying takes the carriage returns out again;
* `Text.pairNewlines_eq_append_cons` — what is no newline has its place in the text;
* `Check.Matches.findings_pairNewlines` — so the findings of a check move by the line feeds
  before them;
* `validate_pairNewlines` — the same for all findings, and those at the end of the text move
  by its last line feed, too.

Design notes: a carriage return is followed by a line feed in this spelling, so it always
ends the line of a declaration.
-/
import AnalyzerBridge.Proofs.Relocation

namespace AnalyzerBridge

/-! ### The spelling -/

namespace Text

/-- The text with a carriage return in front of each line feed. -/
def pairNewlines (text : List Char) : List Char :=
  text.flatMap fun c => if c = '\n' then ['\r', '\n'] else [c]

theorem pairNewlines_feed (rest : List Char) :
    pairNewlines ('\n' :: rest) = '\r' :: '\n' :: pairNewlines rest := rfl

theorem pairNewlines_cons {c : Char} (h : c ≠ '\n') (rest : List Char) :
    pairNewlines (c :: rest) = c :: pairNewlines rest := by
  rw [pairNewlines, List.flatMap_cons, if_neg h]
  rfl

theorem length_pairNewlines (text : List Char) :
    (pairNewlines text).length = text.length + text.count '\n' := by
  induction text with
  | nil => rfl
  | cons c rest ih =>
    by_cases hc : c = '\n'
    · subst hc
      rw [pairNewlines_feed, List.length_cons, List.length_cons, List.length_cons, ih,
        List.count_cons_self]
      omega
    · rw [pairNewlines_cons hc, List.length_cons, List.length_cons, ih, List.count_cons_of_ne hc]
      omega

theorem unifyNewlines_pairNewlines {text : List Char} (h : '\r' ∉ text) :
    unifyNewlines (pairNewlines text) = text := by
  induction text with
  | nil => rfl
  | cons c rest ih =>
    have hrest := ih fun hmem => h (List.mem_cons_of_mem c hmem)
    by_cases hc : c = '\n'
    · subst hc
      rw [pairNewlines_feed, unifyNewlines_pair, hrest]
    · have hreturn : c ≠ '\r' := fun heq => h (heq ▸ List.mem_cons_self)
      rw [pairNewlines_cons hc, unifyNewlines_cons hreturn, hrest]

/-- The spelling of a text is cut where the text is, or between the two halves of a newline. -/
theorem pairNewlines_eq_append {text before after : List Char}
    (h : pairNewlines text = before ++ after) :
    (∃ front back, text = front ++ back ∧ before = pairNewlines front ∧ after = pairNewlines back) ∨
      ∃ front back, text = front ++ '\n' :: back ∧ before = pairNewlines front ++ ['\r'] ∧
        after = '\n' :: pairNewlines back := by
  induction text generalizing before with
  | nil =>
    obtain ⟨rfl, rfl⟩ := List.append_eq_nil_iff.mp h.symm
    exact Or.inl ⟨[], [], rfl, rfl, rfl⟩
  | cons c rest ih =>
    cases before with
    | nil => exact Or.inl ⟨[], c :: rest, rfl, rfl, h.symm⟩
    | cons d before =>
      by_cases hc : c = '\n'
      · subst hc
        obtain ⟨rfl, hpair⟩ := List.cons.inj h
        cases before with
        | nil => exact Or.inr ⟨[], rest, rfl, rfl, hpair.symm⟩
        | cons e before =>
          obtain ⟨rfl, hrest⟩ := List.cons.inj hpair
          rcases ih hrest with ⟨front, back, rfl, rfl, rfl⟩ | ⟨front, back, rfl, rfl, rfl⟩
          · exact Or.inl ⟨'\n' :: front, back, rfl, rfl, rfl⟩
          · exact Or.inr ⟨'\n' :: front, back, rfl, rfl, rfl⟩
      · rw [pairNewlines_cons hc] at h
        obtain ⟨rfl, hrest⟩ := List.cons.inj h
        rcases ih hrest with ⟨front, back, rfl, rfl, rfl⟩ | ⟨front, back, rfl, rfl, rfl⟩
        · exact Or.inl ⟨c :: front, back, rfl, (pairNewlines_cons hc front).symm, rfl⟩
        · exact Or.inr ⟨c :: front, back, rfl, by rw [pairNewlines_cons hc]; rfl, rfl⟩

theorem pairNewlines_eq_cons {text after : List Char} {c : Char} (h : pairNewlines text = c :: after) :
    (c = '\r' ∧ ∃ back, text = '\n' :: back ∧ after = '\n' :: pairNewlines back) ∨
      c ≠ '\n' ∧ ∃ back, text = c :: back ∧ after = pairNewlines back := by
  cases text with
  | nil => exact absurd h (by simp [pairNewlines])
  | cons d rest =>
    by_cases hd : d = '\n'
    · subst hd
      obtain ⟨rfl, rfl⟩ := List.cons.inj h
      exact Or.inl ⟨rfl, rest, rfl, rfl⟩
    · rw [pairNewlines_cons hd] at h
      obtain ⟨rfl, rfl⟩ := List.cons.inj h
      exact Or.inr ⟨hd, rest, rfl, rfl⟩

/-- A character that is no newline stands between the spellings of what stands around it. -/
theorem pairNewlines_eq_append_cons {text before after : List Char} {c : Char} (hreturn : c ≠ '\r')
    (hfeed : c ≠ '\n') (h : pairNewlines text = before ++ c :: after) :
    ∃ front back, text = front ++ c :: back ∧ before = pairNewlines front := by
  rcases pairNewlines_eq_append h with ⟨front, back, rfl, rfl, hback⟩ | ⟨front, back, -, -, hback⟩
  · rcases pairNewlines_eq_cons hback.symm with ⟨hc, -⟩ | ⟨-, back, rfl, -⟩
    · exact absurd hc hreturn
    · exact ⟨front, back, rfl, rfl⟩
  · exact absurd (List.cons.inj hback).1 hfeed

/-- Each carriage return of the spelling is followed by a line feed. -/
theorem eq_lineFeed_of_pairNewlines {text before after : List Char} {c : Char} (hreturn : '\r' ∉ text)
    (h : pairNewlines text = before ++ '\r' :: c :: after) : c = '\n' := by
  rcases pairNewlines_eq_append h with ⟨front, back, rfl, -, hback⟩ | ⟨front, back, -, -, hback⟩
  · rcases pairNewlines_eq_cons hback.symm with ⟨-, back, -, hafter⟩ | ⟨-, back, rfl, -⟩
    · exact (List.cons.inj hafter).1
    · exact absurd (List.mem_append_right front List.mem_cons_self) hreturn
  · exact absurd (List.cons.inj hback).1 (by decide)

end Text

namespace Scan

open Text

/-! ### The findings -/

/-- The finding where it is once each line feed has a carriage return in front. -/
def respelled (text : List Char) (d : Descriptor) : Descriptor :=
  { d with offset := d.offset.map fun i => i + ((text.take (i.toNat + 1)).count '\n' : Int) }

variable {σ β : Type} {k l : Check σ β} {Related : σ → σ → Prop} {text : List Char}

/-- The findings of a check that does not look at newlines move by the line feeds before them. -/
theorem Check.Matches.findings_pairNewlines (h : k.Matches l Related) (hreturn : '\r' ∉ text)
    {s s' : σ} (hs : Related s s') {finding : Nat → β → Descriptor}
    (hfinding : ∀ i j x, { finding i x with offset := some (j : Int) } = finding j x) :
    ((k.sweep s (pairNewlines text)).map fun p => finding p.1 p.2) =
      ((l.sweep s' text).map fun p => finding p.1 p.2).map (respelled text) := by
  have hsweep := h.sweep_unifyNewlines hs (pairNewlines text)
  rw [unifyNewlines_pairNewlines hreturn] at hsweep
  rw [hsweep, List.map_map, List.map_map]
  refine List.map_congr_left fun p hp => ?_
  obtain ⟨before, c, after, htext, hlength, hflag⟩ := Check.mem_sweep.mp hp
  obtain ⟨hc, hfeed⟩ := h.ne_newline hflag
  obtain ⟨front, back, rfl, rfl⟩ := pairNewlines_eq_append_cons hc hfeed htext
  have hfront : '\r' ∉ front := fun hmem => hreturn (List.mem_append_left _ hmem)
  have hplace : unifiedOffset (pairNewlines (front ++ c :: back)) p.1 = front.length := by
    rw [unifiedOffset, htext, ← hlength, List.take_left, unifyNewlines_pairNewlines hfront]
  have hbefore : (front ++ c :: back).take (front.length + 1) = front ++ [c] := by
    rw [List.take_length_add_append, List.take_succ_cons, List.take_zero]
  have hcount : (front.length : Int) + (((front ++ c :: back).take (front.length + 1)).count '\n' : Nat) =
      p.1 := by
    rw [hbefore, List.count_append, List.count_singleton, ← hlength, length_pairNewlines]
    simp [hfeed]
  have hoffset : (finding front.length p.2).offset = some (front.length : Int) := by
    rw [← hfinding front.length front.length p.2]
  show finding p.1 p.2 = respelled _ (finding (unifiedOffset _ p.1) p.2)
  rw [hplace, respelled, hoffset, Option.map_some, Int.toNat_natCast, hcount, hfinding]

theorem bracketFindings_pairNewlines (hreturn : '\r' ∉ text) :
    bracketFindings (pairNewlines text) = (bracketFindings text).map (respelled text) := by
  have hexcess : ∀ b, excess b (pairNewlines text) = excess b text := fun b => by
    rw [← excess_unifyNewlines, unifyNewlines_pairNewlines hreturn]
  have hstrays : ((strayCheck.sweep {} (pairNewlines text)).map fun p => strayFinding p.1 p.2) =
      ((strayCheck.sweep {} text).map fun p => strayFinding p.1 p.2).map (respelled text) :=
    strayCheck_matches.findings_pairNewlines hreturn rfl fun _ _ _ => rfl
  have hend : 0 < text.length → ∀ b n, respelled text (unclosedFinding text.length b n) =
      unclosedFinding (pairNewlines text).length b n := fun hpos b n => by
    -- the end of the text moves by all line feeds, also by one that ends the text
    have hlast : (((pairNewlines text).length - 1 : Nat) : Int) =
        ((text.length - 1 : Nat) : Int) + (text.count '\n' : Nat) := by
      rw [length_pairNewlines]
      omega
    rw [respelled]
    simp only [unclosedFinding, Option.map_some, Int.toNat_natCast, Nat.sub_add_cancel hpos,
      List.take_length, hlast]
  rw [bracketFindings_eq, bracketFindings_eq, strayClosers_eq, strayClosers_eq, List.map_append,
    hstrays, unclosedFindings_moved hexcess hend]

/-- No declaration of the spelling stops at a carriage return that stands alone. -/
theorem not_stopsAtReturn_pairNewlines (hreturn : '\r' ∉ text) : ¬ StopsAtReturn (pairNewlines text) := by
  rintro ⟨before, b, gap, c, after, htext, hc, -⟩
  rw [← List.append_assoc, ← List.append_assoc] at htext
  exact hc (eq_lineFeed_of_pairNewlines hreturn htext)

/-- With a carriage return in front of each line feed, a text without carriage returns has the findings
that it has without, in the same order, and each moved by the line feeds up to its place. -/
theorem validate_pairNewlines {source : String} (hreturn : '\r' ∉ source.toList) :
    validate (.text (String.ofList (pairNewlines source.toList))) =
      (validate (.text source)).map fun d =>
        { d with
          offset := d.offset.map fun i => i + ((source.toList.take (i.toNat + 1)).count '\n' : Int) } := by
  have hdeclarations : ((stopCheck.sweep none (pairNewlines source.toList)).map
        fun p => unfinishedFinding p.1 p.2) =
      ((declarationCheck.sweep none source.toList).map fun p => unfinishedFinding p.1 p.2).map
        (respelled source.toList) :=
    stopCheck_matches.findings_pairNewlines hreturn rfl fun _ _ _ => rfl
  rw [sweep_stopCheck_of_not_stopsAtReturn (not_stopsAtReturn_pairNewlines hreturn)] at hdeclarations
  have harrows : ((arrowCheck.sweep true (pairNewlines source.toList)).map fun p => arrowFinding p.1) =
      ((arrowCheck.sweep true source.toList).map fun p => arrowFinding p.1).map
        (respelled source.toList) :=
    @Check.Matches.findings_pairNewlines _ _ _ _ _ _ arrowCheck_matches hreturn _ _ rfl
      (fun i _ => arrowFinding i) fun _ _ _ => rfl
  show findings (String.ofList (pairNewlines source.toList)).toList =
    (findings source.toList).map (respelled source.toList)
  rw [String.toList_ofList, findings, bracketFindings_pairNewlines hreturn, declarationFindings_eq,
    hdeclarations, arrowFindings_eq, harrows, findings, declarationFindings_eq, arrowFindings_eq,
    List.map_append, List.map_append]

/-- Findings of every check, one of them at the line feed that ends the text. -/
theorem validate_pairNewlines_mixed :
    '\r' ∉ "]\nval \n\t=> (\n".toList ∧
      validate (.text "]\r\nval \r\n\t=> (\r\n") =
        [strayFinding 0 .bracket, unclosedFinding 16 .parenthesis 1, unfinishedFinding 3 .value,
          arrowFinding 10] := by
  have hreturn : '\r' ∉ "]\nval \n\t=> (\n".toList := by decide
  have hspelled : String.ofList (pairNewlines "]\nval \n\t=> (\n".toList) =
      "]\r\nval \r\n\t=> (\r\n" := by decide
  rw [← hspelled]
  exact ⟨hreturn, (validate_pairNewlines hreturn).trans (by decide)⟩

end Scan

end AnalyzerBridge
