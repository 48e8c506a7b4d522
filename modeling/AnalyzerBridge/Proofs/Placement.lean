/-
Where findings are shown, and which cannot be.

A finding spans from where it starts to where it stops; positions read from an
offset are moved into the text, while lines and columns are taken as they were
reported.

* `Descriptor.legal_span_iff` — a finding can be shown exactly if its coordinates are
  within the bounds of the protocol;
* `Descriptor.ordered_span_iff` — it stops no earlier than it starts unless its length
  is negative and its offset was not moved far enough;
* `Service.validate_shows` — the outcome of a request that is still current is
  published if all its findings can be shown, and none of it is otherwise.

Design notes: positions come in the order of the text, and an offset moved into the
text determines its position, so both are compared as the offsets are.
-/
import AnalyzerBridge.Proofs.Consistency
import AnalyzerBridge.Proofs.Service
import AnalyzerBridge.Proofs.Sweep
import Mathlib

namespace AnalyzerBridge

/-! ### Positions of the protocol -/

/-- The number is within the bounds of a coordinate. -/
def Coordinate (i : Int) : Prop :=
  0 ≤ i ∧ i < 2 ^ 31

namespace Position

/-- Both coordinates can be sent. -/
def Legal (p : Position) : Prop :=
  Coordinate p.line ∧ Coordinate p.character

/-- Positions come line by line, and in a line by character. -/
instance : LE Position :=
  ⟨fun p q => p.line < q.line ∨ p.line = q.line ∧ p.character ≤ q.character⟩

theorem le_def {p q : Position} :
    p ≤ q ↔ p.line < q.line ∨ p.line = q.line ∧ p.character ≤ q.character := Iff.rfl

end Position

/-- Both ends of the range can be sent. -/
def Range.Legal (r : Range) : Prop :=
  r.start.Legal ∧ r.stop.Legal

/-- The failure is that of a number that cannot be sent: it is named, unless it is too long to be
spelled. -/
inductive Failure.Refuses : Failure → Prop where
  | named (field : BoundedField) (given : Int) (h : field.admits given = false) :
      Refuses (.outOfRange field given)
  | unspellable : Refuses .integerUnspellable

namespace BoundedField

variable {field : BoundedField} {i : Int}

theorem check_of_admits (h : field.admits i = true) : field.check i = .ok i := by
  rw [check, if_pos h]

theorem check_of_not_admits (h : field.admits i = false) :
    ∃ f, field.check i = .error f ∧ f.Refuses := by
  rw [check, if_neg (by simp [h])]
  split
  · exact ⟨_, rfl, .named field i h⟩
  · exact ⟨_, rfl, .unspellable⟩

theorem admits_line_iff : BoundedField.line.admits i = true ↔ Coordinate i := by
  show (decide (0 ≤ i) && decide (i ≤ 2147483647)) = true ↔ _
  rw [Bool.and_eq_true, decide_eq_true_eq, decide_eq_true_eq, Coordinate]
  omega

theorem admits_character_iff : BoundedField.character.admits i = true ↔ Coordinate i :=
  admits_line_iff

end BoundedField

namespace Position

theorem make_of_legal {line character : Int} (h : Legal ⟨line, character⟩) :
    make line character = .ok ⟨line, character⟩ := by
  obtain ⟨hline, hcharacter⟩ := h
  rw [make, BoundedField.check_of_admits (BoundedField.admits_line_iff.mpr hline),
    BoundedField.check_of_admits (BoundedField.admits_character_iff.mpr hcharacter)]
  rfl

theorem make_of_not_legal {line character : Int} (h : ¬ Legal ⟨line, character⟩) :
    ∃ f, make line character = .error f ∧ f.Refuses := by
  rw [make]
  cases hline : BoundedField.line.admits line with
  | false =>
    obtain ⟨f, hf, hrefuses⟩ := BoundedField.check_of_not_admits hline
    rw [hf]
    exact ⟨f, rfl, hrefuses⟩
  | true =>
    have hcharacter : BoundedField.character.admits character = false := by
      rw [Bool.eq_false_iff]
      intro hadmits
      exact h ⟨BoundedField.admits_line_iff.mp hline, BoundedField.admits_character_iff.mp hadmits⟩
    obtain ⟨f, hf, hrefuses⟩ := BoundedField.check_of_not_admits hcharacter
    rw [BoundedField.check_of_admits hline, hf]
    exact ⟨f, rfl, hrefuses⟩

theorem makeRange_of_legal {r : Range} (h : r.Legal) :
    makeRange r.start.line r.start.character r.stop.line r.stop.character = .ok r := by
  obtain ⟨hstart, hstop⟩ := h
  rw [makeRange, make_of_legal hstart, make_of_legal hstop]
  rfl

theorem makeRange_of_not_legal {r : Range} (h : ¬ r.Legal) :
    ∃ f, makeRange r.start.line r.start.character r.stop.line r.stop.character = .error f ∧
      f.Refuses := by
  rw [makeRange]
  by_cases hstart : r.start.Legal
  · have hstop : ¬ r.stop.Legal := fun hstop => h ⟨hstart, hstop⟩
    obtain ⟨f, hf, hrefuses⟩ := make_of_not_legal hstop
    rw [make_of_legal hstart, hf]
    exact ⟨f, rfl, hrefuses⟩
  · obtain ⟨f, hf, hrefuses⟩ := make_of_not_legal hstart
    rw [hf]
    exact ⟨f, rfl, hrefuses⟩

end Position

/-! ### Positions in a text -/

theorem newlineCount_snoc (before : List Char) (c : Char) :
    newlineCount (before ++ [c]) = newlineCount before + if c = '\n' then 1 else 0 := by
  rw [newlineCount, List.countP_append]
  by_cases h : c = '\n' <;> simp [newlineCount, h]

theorem columnCount_snoc (before : List Char) (c : Char) :
    columnCount (before ++ [c]) = if c = '\n' then 0 else columnCount before + 1 := by
  rw [columnCount, List.reverse_append]
  by_cases h : c = '\n' <;> simp [columnCount, h]

/-- The position after a text, as it is compared. -/
def endOf (before : List Char) : ℕ ×ₗ ℕ :=
  toLex (newlineCount before, columnCount before)

/-- Every character moves the end of a text forward. -/
theorem endOf_lt_snoc (before : List Char) (c : Char) : endOf before < endOf (before ++ [c]) := by
  rw [endOf, endOf, Prod.Lex.toLex_lt_toLex, newlineCount_snoc, columnCount_snoc]
  by_cases h : c = '\n' <;> simp [h]

theorem endOf_lt_append (before : List Char) {more : List Char} (h : more ≠ []) :
    endOf before < endOf (before ++ more) := by
  induction more using List.reverseRecOn with
  | nil => exact absurd rfl h
  | append_singleton more c ih =>
    have hlast : endOf (before ++ more) < endOf (before ++ (more ++ [c])) := by
      rw [← List.append_assoc]
      exact endOf_lt_snoc _ c
    by_cases hmore : more = []
    · rw [hmore, List.append_nil] at hlast
      rwa [hmore]
    · exact (ih hmore).trans hlast

theorem endOf_take_lt {text : List Char} {a b : Nat} (h : a < b) (hb : b ≤ text.length) :
    endOf (text.take a) < endOf (text.take b) := by
  have htake : (text.take b).take a = text.take a := by
    rw [List.take_take, Nat.min_eq_left (Nat.le_of_lt h)]
  have hsplit : text.take b = text.take a ++ (text.take b).drop a := by
    rw [← htake, List.take_append_drop]
  rw [hsplit]
  refine endOf_lt_append _ fun hnil => ?_
  have hlength := congrArg List.length hnil
  rw [List.length_drop, List.length_take, List.length_nil] at hlength
  omega

/-- Positions come in the order of the offsets they are read from. -/
theorem endOf_take_le_iff {text : List Char} {a b : Nat} (ha : a ≤ text.length)
    (hb : b ≤ text.length) : endOf (text.take a) ≤ endOf (text.take b) ↔ a ≤ b := by
  constructor
  · intro hle
    by_contra hlt
    exact absurd hle (not_le.mpr (endOf_take_lt (Nat.lt_of_not_le hlt) ha))
  · intro hle
    rcases Nat.eq_or_lt_of_le hle with rfl | hlt
    · exact le_refl _
    · exact (endOf_take_lt hlt hb).le

/-- An offset in the text stays, and any other is moved to the nearer end. -/
theorem clampOffset_cases (size : Nat) (offset : Int) :
    offset ≤ 0 ∧ clampOffset size offset = 0 ∨
      0 ≤ offset ∧ offset ≤ size ∧ (clampOffset size offset : Int) = offset ∨
      size ≤ offset ∧ clampOffset size offset = size := by
  rw [clampOffset]
  rcases Int.le_total offset size with hsize | hsize
  · rw [Int.min_eq_left hsize]
    omega
  · rw [Int.min_eq_right hsize]
    omega

theorem clampOffset_le (size : Nat) (offset : Int) : clampOffset size offset ≤ size := by
  have hcases := clampOffset_cases size offset
  omega

theorem clampOffset_le_iff (size : Nat) (a b : Int) :
    clampOffset size a ≤ clampOffset size b ↔ a ≤ b ∨ a ≤ 0 ∨ size ≤ b ∨ size = 0 := by
  have ha := clampOffset_cases size a
  have hb := clampOffset_cases size b
  omega

/-- Where an offset is in a text. -/
def placeAt (text : List Char) (offset : Int) : Position :=
  ⟨(positionAt text offset).1, (positionAt text offset).2⟩

theorem placeAt_le_iff (text : List Char) (a b : Int) :
    placeAt text a ≤ placeAt text b ↔
      a ≤ b ∨ a ≤ 0 ∨ text.length ≤ b ∨ text.length = 0 := by
  -- positions are compared as the ends of the texts before them
  have hlex : placeAt text a ≤ placeAt text b ↔
      endOf (text.take (clampOffset text.length a)) ≤
        endOf (text.take (clampOffset text.length b)) := by
    rw [Position.le_def, endOf, endOf, Prod.Lex.toLex_le_toLex]
    simp only [placeAt, positionAt]
    omega
  rw [hlex, endOf_take_le_iff (clampOffset_le _ _) (clampOffset_le _ _), clampOffset_le_iff]

theorem newlineCount_add_columnCount_le (before : List Char) :
    newlineCount before + columnCount before ≤ before.length := by
  induction before using List.reverseRecOn with
  | nil => simp [newlineCount, columnCount]
  | append_singleton before c ih =>
    rw [newlineCount_snoc, columnCount_snoc, List.length_append, List.length_singleton]
    split <;> omega

/-- Every position in a text that is not too long can be sent. -/
theorem legal_placeAt {text : List Char} (h : text.length < 2 ^ 31) (offset : Int) :
    (placeAt text offset).Legal := by
  have hsum := newlineCount_add_columnCount_le (text.take (clampOffset text.length offset))
  rw [List.length_take] at hsum
  have hclamp := clampOffset_le text.length offset
  simp only [Position.Legal, Coordinate, placeAt, positionAt]
  omega

/-! ### Findings in a text -/

namespace Descriptor

/-- Where a finding starts and stops, whether or not it can be shown there. -/
def span (text : List Char) (d : Descriptor) : Range :=
  match d.offset, d.line with
  | some offset, _ => ⟨placeAt text offset, placeAt text (offset + d.extent)⟩
  | none, some line => ⟨⟨line, d.column.getD 0⟩, ⟨line, d.column.getD 0 + d.extent⟩⟩
  | none, none => ⟨⟨0, 0⟩, ⟨0, unpositionedWidth⟩⟩

/-- The finding can be shown in a text: an offset in any text that is not enormous, a line if line,
column and end are within bounds. -/
def Placeable (text : List Char) (d : Descriptor) : Prop :=
  match d.offset, d.line with
  | some offset, _ => (placeAt text offset).Legal ∧ (placeAt text (offset + d.extent)).Legal
  | none, some line =>
    Coordinate line ∧ Coordinate (d.column.getD 0) ∧ Coordinate (d.column.getD 0 + d.extent)
  | none, none => True

/-- The finding does not run backwards in a text of the given size.  One of negative length may still be
cut to nothing by the ends of the text. -/
def Forward (size : Nat) (d : Descriptor) : Prop :=
  match d.offset, d.line with
  | some offset, _ => 0 ≤ d.extent ∨ offset ≤ 0 ∨ size ≤ offset + d.extent ∨ size = 0
  | none, some _ => 0 ≤ d.extent
  | none, none => True

variable {text : List Char} {d : Descriptor}

theorem legal_span_iff : (d.span text).Legal ↔ d.Placeable text := by
  obtain ⟨message, offset, length, line, column⟩ := d
  cases offset with
  | some offset => exact Iff.rfl
  | none =>
    cases line with
    | none =>
      simp [span, Placeable, Range.Legal, Position.Legal, Coordinate, unpositionedWidth]
    | some line =>
      simp only [span, Placeable, Range.Legal, Position.Legal]
      tauto

theorem ordered_span_iff :
    (d.span text).start ≤ (d.span text).stop ↔ d.Forward text.length := by
  obtain ⟨message, offset, length, line, column⟩ := d
  cases offset with
  | some offset =>
    have hle : offset ≤ offset + extent ⟨message, some offset, length, line, column⟩ ↔
        0 ≤ extent ⟨message, some offset, length, line, column⟩ := by omega
    refine (placeAt_le_iff text offset _).trans ?_
    rw [hle]
    rfl
  | none =>
    cases line with
    | none => simp [span, Forward, Position.le_def, unpositionedWidth]
    | some line =>
      -- start and stop share the line
      show line < line ∨ line = line ∧
          column.getD 0 ≤ column.getD 0 + extent ⟨message, none, length, some line, column⟩ ↔
        0 ≤ extent ⟨message, none, length, some line, column⟩
      omega

theorem descriptorRange_eq :
    descriptorRange text d = Position.makeRange (d.span text).start.line (d.span text).start.character
      (d.span text).stop.line (d.span text).stop.character := by
  obtain ⟨message, offset, length, line, column⟩ := d
  cases offset <;> cases line <;> rfl

/-- A finding with an offset can be shown in every text that is not enormous. -/
theorem placeable_of_offset (hoffset : d.offset.isSome = true) (h : text.length < 2 ^ 31) :
    d.Placeable text := by
  obtain ⟨message, offset, length, line, column⟩ := d
  cases offset with
  | none => exact absurd hoffset (by simp)
  | some offset => exact ⟨legal_placeAt h _, legal_placeAt h _⟩

theorem forward_of_extent (h : 0 ≤ d.extent) (size : Nat) : d.Forward size := by
  obtain ⟨message, offset, length, line, column⟩ := d
  cases offset with
  | some offset => exact Or.inl h
  | none =>
    cases line with
    | none => trivial
    | some line => exact h

end Descriptor

/-! ### Findings of an error stream -/

namespace Transcript

/-- The finding has no offset and no length, and its line and column are not negative. -/
structure Counted (d : Descriptor) : Prop where
  offset : d.offset = none
  length : d.length = none
  line : ∀ l, d.line = some l → 0 ≤ l
  column : ∀ n, d.column = some n → 0 ≤ n

theorem zeroBased_nonneg {digits : List Char} {i : Int} (h : zeroBased digits = .ok i) : 0 ≤ i := by
  rw [zeroBased] at h
  split at h
  · obtain rfl := Except.ok.inj h
    omega
  · exact absurd h (by simp)

theorem counted_of_lineFinding {line : List Char} {d : Descriptor} (h : lineFinding line = .ok d) :
    Counted d := by
  rw [lineFinding] at h
  split at h
  · obtain rfl := Except.ok.inj h
    exact ⟨rfl, rfl, by simp, by simp⟩
  · split at h
    · exact absurd h (by simp)
    next l hl =>
      split at h
      · exact absurd h (by simp)
      next n hn =>
        obtain rfl := Except.ok.inj h
        refine ⟨rfl, rfl, fun _ hline => ?_, fun _ hcolumn => ?_⟩
        · obtain rfl := Option.some_inj.mp hline
          exact zeroBased_nonneg hl
        · obtain rfl := Option.some_inj.mp hcolumn
          exact zeroBased_nonneg hn

/-- The numbers of an error stream are moved up to zero. -/
theorem counted_of_parseStderr {stderr : List UInt8} {exitCode : Option Int}
    {found : List Descriptor} (h : parseStderr stderr exitCode = .ok found) :
    ∀ d ∈ found, Counted d := by
  rw [parseStderr] at h
  split at h
  · rcases emptyStreamFinding_cases exitCode with ⟨hread, -⟩ | ⟨hread, -⟩
    · rw [hread] at h
      obtain rfl := Except.ok.inj h
      intro d hd
      obtain rfl := List.mem_singleton.mp hd
      exact ⟨rfl, rfl, by simp [silentFinding], by simp [silentFinding]⟩
    · rw [hread] at h
      exact absurd h (by simp [Except.map])
  · intro d hd
    obtain ⟨line, -, hline⟩ := mem_mapM h d hd
    exact counted_of_lineFinding hline

/-- A finding whose numbers are not negative is out of place only if they are too large. -/
theorem Counted.placeable_iff {d : Descriptor} (h : Counted d) (text : List Char) :
    d.Placeable text ↔ d.line = none ∨ d.line.getD 0 < 2 ^ 31 ∧ d.column.getD 0 + 1 < 2 ^ 31 := by
  obtain ⟨message, offset, length, line, column⟩ := d
  obtain rfl : offset = none := h.offset
  obtain rfl : length = none := h.length
  cases line with
  | none => exact ⟨fun _ => Or.inl rfl, fun _ => trivial⟩
  | some line =>
    have hline : 0 ≤ line := h.line line rfl
    have hcolumn : 0 ≤ column.getD 0 := by
      cases column with
      | none => exact Int.le_refl 0
      | some n => exact h.column n rfl
    show Coordinate line ∧ Coordinate (column.getD 0) ∧ Coordinate (column.getD 0 + 1) ↔
      some line = none ∨ line < 2 ^ 31 ∧ column.getD 0 + 1 < 2 ^ 31
    simp only [Coordinate, reduceCtorEq, false_or]
    omega

theorem Counted.forward {d : Descriptor} (h : Counted d) (size : Nat) : d.Forward size := by
  refine Descriptor.forward_of_extent ?_ size
  rw [Descriptor.extent, h.length]
  decide

end Transcript

/-! ### Publications -/

namespace Service

variable {text : List Char} {d : Descriptor} {uri : String} {doc : Document} {o : Outcome}

/-- The outcome can be sent for a document: its version can, and every finding can be shown. -/
structure Sendable (doc : Document) (o : Outcome) : Prop where
  version : ∀ v, doc.version = some v → BoundedField.version.admits v = true
  placeable : ∀ d ∈ o.errors, d.Placeable doc.text.toList

/-- The findings of an outcome, each where it spans. -/
def shown (text : List Char) (o : Outcome) : List Diagnostic :=
  o.errors.map fun d => ⟨d.span text, d.message⟩

theorem diagnostic_of_placeable (h : d.Placeable text) :
    diagnostic text d = .ok ⟨d.span text, d.message⟩ := by
  rw [diagnostic, Descriptor.descriptorRange_eq,
    Position.makeRange_of_legal (Descriptor.legal_span_iff.mpr h)]
  rfl

theorem diagnostic_of_not_placeable (h : ¬ d.Placeable text) :
    ∃ f, diagnostic text d = .error f ∧ f.Refuses := by
  have hlegal : ¬ (d.span text).Legal := fun hlegal => h (Descriptor.legal_span_iff.mp hlegal)
  obtain ⟨f, hf, hrefuses⟩ := Position.makeRange_of_not_legal hlegal
  rw [diagnostic, Descriptor.descriptorRange_eq, hf]
  exact ⟨f, rfl, hrefuses⟩

theorem diagnostics_of_placeable (h : ∀ d ∈ o.errors, d.Placeable text) :
    diagnostics text o = .ok (shown text o) := by
  rw [diagnostics, shown]
  generalize o.errors = ds at h
  induction ds with
  | nil => rfl
  | cons d ds ih =>
    rw [List.mapM_cons, diagnostic_of_placeable (h d List.mem_cons_self),
      ih fun e he => h e (List.mem_cons_of_mem _ he)]
    rfl

/-- The first finding that cannot be shown is the failure of all. -/
theorem diagnostics_of_not_placeable (h : ¬ ∀ d ∈ o.errors, d.Placeable text) :
    ∃ f, diagnostics text o = .error f ∧ f.Refuses := by
  rw [diagnostics]
  rcases Transcript.mapM_cases (diagnostic text) o.errors with ⟨-, -, hall⟩ | ⟨f, hf, d, hd, hfail⟩
  · refine absurd (fun d hd => ?_) h
    by_contra hplaceable
    obtain ⟨f, hf, -⟩ := diagnostic_of_not_placeable hplaceable
    obtain ⟨y, hy⟩ := hall d hd
    rw [hf] at hy
    exact absurd hy (by simp)
  · refine ⟨f, hf, ?_⟩
    by_cases hplaceable : d.Placeable text
    · rw [diagnostic_of_placeable hplaceable] at hfail
      exact absurd hfail (by simp)
    · obtain ⟨g, hg, hrefuses⟩ := diagnostic_of_not_placeable hplaceable
      rw [hg] at hfail
      obtain rfl := Except.error.inj hfail
      exact hrefuses

theorem publication_of_sendable (h : Sendable doc o) :
    publication uri doc o = .ok ⟨uri, doc.version, shown doc.text.toList o⟩ := by
  have hversion : doc.version.mapM BoundedField.version.check =
      (.ok doc.version : Except Failure (Option Int)) := by
    cases hv : doc.version with
    | none => rfl
    | some v =>
      show (some <$> BoundedField.version.check v : Except Failure (Option Int)) = _
      rw [BoundedField.check_of_admits (h.version v hv)]
      rfl
  rw [publication, diagnostics_of_placeable h.placeable, hversion]
  rfl

theorem publication_of_not_sendable (h : ¬ Sendable doc o) :
    ∃ f, publication uri doc o = .error f ∧ f.Refuses := by
  rw [publication]
  by_cases hplaceable : ∀ d ∈ o.errors, d.Placeable doc.text.toList
  · rw [diagnostics_of_placeable hplaceable]
    cases hv : doc.version with
    | none => exact absurd ⟨fun v hsome => absurd (hv.symm.trans hsome) (by simp), hplaceable⟩ h
    | some v =>
      have hadmits : BoundedField.version.admits v = false := by
        rw [Bool.eq_false_iff]
        intro hadmits
        refine h ⟨fun u hu => ?_, hplaceable⟩
        obtain rfl := Option.some_inj.mp (hv.symm.trans hu)
        exact hadmits
      obtain ⟨f, hf, hrefuses⟩ := BoundedField.check_of_not_admits hadmits
      have hversion : (some v).mapM BoundedField.version.check =
          (.error f : Except Failure (Option Int)) := by
        show (some <$> BoundedField.version.check v : Except Failure (Option Int)) = _
        rw [hf]
        rfl
      rw [hversion]
      exact ⟨f, rfl, hrefuses⟩
  · obtain ⟨f, hf, hrefuses⟩ := diagnostics_of_not_placeable hplaceable
    rw [hf]
    exact ⟨f, rfl, hrefuses⟩

/-! ### Refreshes -/

variable {ε : Type} {w w₀ w₁ : Workspace ε}

theorem publish_of_sendable (h : Sendable doc o) :
    publish uri doc o w =
      (.ok (), { w with published := w.published ++ [⟨uri, doc.version, shown doc.text.toList o⟩] }) := by
  have hsent : (Act.ofExcept (publication uri doc o) : Act (Workspace ε) Publication) w =
      (.ok ⟨uri, doc.version, shown doc.text.toList o⟩, w) := by
    rw [publication_of_sendable h, Act.ofExcept_apply]
  exact Act.run_bind hsent _

theorem publish_of_not_sendable (h : ¬ Sendable doc o) :
    ∃ f, publish uri doc o w = (.error f, w) ∧ f.Refuses := by
  obtain ⟨f, hf, hrefuses⟩ := @publication_of_not_sendable uri doc o h
  have hsent : (Act.ofExcept (publication uri doc o) : Act (Workspace ε) Publication) w =
      (.error f, w) := by
    rw [hf, Act.ofExcept_apply]
  exact ⟨f, Act.fail_bind hsent _, hrefuses⟩

/-- An outcome that is still current is sent as a whole. -/
theorem conclude_of_sendable {id : String} (hcurrent : w.session.isCurrent uri id = true)
    (h : Sendable doc o) :
    ∃ w', conclude uri id doc o w = (.ok (some o), w') ∧
      w'.published = w.published ++ [⟨uri, doc.version, shown doc.text.toList o⟩] := by
  obtain ⟨messages, hcaveat⟩ := showCaveat_apply o w
  rw [conclude, Act.run_bind (Workspace.isCurrent_apply w uri id), hcurrent, if_pos rfl,
    Act.run_bind hcaveat, Act.run_bind (publish_of_sendable h)]
  exact ⟨_, rfl, rfl⟩

/-- Nothing is sent of an outcome that cannot be sent as a whole. -/
theorem conclude_of_not_sendable {id : String} (hcurrent : w.session.isCurrent uri id = true)
    (h : ¬ Sendable doc o) :
    ∃ f w', conclude uri id doc o w = (.error f, w') ∧ f.Refuses ∧ w'.published = w.published := by
  obtain ⟨messages, hcaveat⟩ := showCaveat_apply o w
  obtain ⟨f, hpublish, hrefuses⟩ :=
    @publish_of_not_sendable uri doc o ε { w with messages := messages } h
  rw [conclude, Act.run_bind (Workspace.isCurrent_apply w uri id), hcurrent, if_pos rfl,
    Act.run_bind hcaveat, Act.fail_bind hpublish]
  exact ⟨f, _, rfl, hrefuses, rfl⟩

variable (s : Service ε) {c : Coordinator ε}

/-- A refresh whose request is answered goes on with its conclusion. -/
theorem validate_of_analyze
    (hc : s.coordinator { w with nextNumber := w.nextNumber + 1 } = (.ok c, w₀))
    (ha : c.analyze (request uri (requestId uri w) (w.document uri) c.settings)
      (some (early uri (w.document uri))) w₀ = (.ok o, w₁)) :
    s.validate uri w = conclude uri (requestId uri w) (w.document uri) o w₁ := by
  rw [validate, Act.run_bind (Act.look_apply _ w),
    Act.run_bind (Workspace.nextRequestId_apply w uri), Act.run_bind hc]
  exact Act.run_bind ha _

/-- What the scan finds can be shown in a text that is not enormous, and does not run backwards. -/
theorem placeable_of_mem_scanOutcome {settings : Settings} {source : String} {d : Descriptor}
    (hd : d ∈ (settings.scanOutcome source).errors) (hsize : source.toList.length < 2 ^ 31) :
    d.Placeable source.toList ∧ d.Forward source.toList.length := by
  have hfound : d ∈ Scan.findings source.toList := by
    rw [Settings.scanOutcome] at hd
    split at hd
    · exact hd
    · exact absurd hd (by simp)
  obtain ⟨⟨i, hoffset, -⟩, hextent⟩ := Scan.offset_of_mem_findings hfound
  have hsome : d.offset.isSome = true := by rw [hoffset, Option.isSome_some]
  exact ⟨Descriptor.placeable_of_offset hsome hsize, Descriptor.forward_of_extent hextent _⟩

theorem sendable_scanOutcome (settings : Settings)
    (hversion : ∀ v, doc.version = some v → BoundedField.version.admits v = true)
    (hsize : doc.text.toList.length < 2 ^ 31) : Sendable doc (settings.scanOutcome doc.text) :=
  ⟨hversion, fun _ hd => (placeable_of_mem_scanOutcome hd hsize).1⟩

/-- What the scan found can be shown in a text that is not enormous, and does not run backwards, also
after the analyzer was called in vain. -/
theorem placeable_of_scan {listener : Option (Listener ε)} {r : Request}
    (h : c.analyze r listener w = (.ok o, w₁)) (hsource : o.source = .heuristic)
    (htext : r.source.toList = text) (hsize : text.length < 2 ^ 31) :
    ∀ d ∈ o.errors, d.Placeable text ∧ d.Forward text.length := by
  have herrors : o.errors = (c.settings.scanOutcome r.source).errors := by
    obtain rfl | ⟨reason, hfallback⟩ | ⟨raw, -, hanalyzer, -⟩ := c.analyze_result_cases r h
    · rfl
    · exact hfallback.errors
    · rw [hsource] at hanalyzer
      exact absurd hanalyzer (by decide)
  subst htext
  intro d hd
  rw [herrors] at hd
  exact placeable_of_mem_scanOutcome hd hsize

/-- The outcome of a request that is still current is published as a whole if all its findings can be
shown, each where it spans, and otherwise the refresh fails and publishes nothing.  A published range is
legal, and it is ordered exactly if its finding does not run backwards.  Findings of the scan can be shown
and do not run backwards, and those of an error stream can be shown unless their numbers are too large;
only a payload has findings at negative places or of negative length. -/
theorem validate_shows (hdoc : w.document uri = doc)
    (hc : s.coordinator { w with nextNumber := w.nextNumber + 1 } = (.ok c, w₀))
    (ha : c.analyze (request uri (requestId uri w) doc c.settings) (some (early uri doc)) w₀ =
      (.ok o, w₁))
    (hcurrent : w₁.session.isCurrent uri (requestId uri w) = true) :
    (Sendable doc o → ∃ w', s.validate uri w = (.ok (some o), w') ∧
      w'.published = w₁.published ++ [⟨uri, doc.version, shown doc.text.toList o⟩]) ∧
    (¬ Sendable doc o → ∃ f w', s.validate uri w = (.error f, w') ∧ f.Refuses ∧
      w'.published = w₁.published) ∧
    (∀ d ∈ o.errors, (d.Placeable doc.text.toList ↔ (d.span doc.text.toList).Legal) ∧
      ((d.span doc.text.toList).start ≤ (d.span doc.text.toList).stop ↔
        d.Forward doc.text.toList.length)) ∧
    (o.source = .heuristic → doc.text.toList.length < 2 ^ 31 →
      ∀ d ∈ o.errors, d.Placeable doc.text.toList ∧ d.Forward doc.text.toList.length) ∧
    (∀ stderr exitCode, Transcript.parseStderr stderr exitCode = .ok o.errors →
      ∀ d ∈ o.errors, d.Forward doc.text.toList.length ∧ (d.Placeable doc.text.toList ↔
        d.line = none ∨ d.line.getD 0 < 2 ^ 31 ∧ d.column.getD 0 + 1 < 2 ^ 31)) := by
  subst hdoc
  -- all that is left of the refresh is its conclusion
  rw [s.validate_of_analyze hc ha]
  refine ⟨conclude_of_sendable hcurrent, conclude_of_not_sendable hcurrent, fun d _ => ?_,
    fun hsource hsize => placeable_of_scan ha hsource rfl hsize, fun stderr exitCode hread d hd => ?_⟩
  · exact ⟨Descriptor.legal_span_iff.symm, Descriptor.ordered_span_iff⟩
  · have hcounted := Transcript.counted_of_parseStderr hread d hd
    exact ⟨hcounted.forward _, hcounted.placeable_iff _⟩

/-- A service whose analyzer leaves the same output behind, whatever it is called with. -/
def replying (raw : RawOutput) : Service Unit where
  invoke := fun _ _ => pure raw

/-- A workspace with loaded settings and an open document of six characters. -/
def opened : Workspace Unit where
  documents := [("u", { text := "abcdef", version := some 1 })]
  settings := some {}
  surroundings := ()

/-- The first request on the document, answered with the given output. -/
def asked (raw : RawOutput) : Except Failure Outcome × Workspace Unit :=
  Coordinator.analyze { settings := {}, invoke := (replying raw).invoke }
    (request "u" (requestId "u" opened) (opened.document "u") {})
    (some (early "u" (opened.document "u"))) { opened with nextNumber := 2 }

/-- Output of a run that completed answers the request, which is current still; nothing has been published
yet, since the scan finds nothing in the document. -/
theorem asked_of_translate {raw : RawOutput} (h : (Transcript.translate false raw).result = .ok o)
    (hcomplete : o.degraded = none) :
    ∃ w₁, asked raw = (.ok o, w₁) ∧ w₁.session.isCurrent "u" (requestId "u" opened) = true ∧
      w₁.published = [] := by
  have hsettled : (Transcript.translate false raw).result.map
      (Coordinator.settle (({} : Settings).scanOutcome "abcdef")) = .ok o := by
    rw [h, Except.map, Coordinator.settle, hcomplete]
  have hquiet : (({} : Settings).scanOutcome "abcdef").success = true := by decide +kernel
  obtain ⟨log, hasked⟩ := Coordinator.analyze_of_success
    { settings := {}, invoke := (replying raw).invoke }
    (request "u" (requestId "u" opened) (opened.document "u") {})
    (some (early "u" (opened.document "u"))) { opened with nextNumber := 2 } hquiet rfl (by decide)
  exact ⟨_, hasked.trans (Prod.ext hsettled rfl), rfl, rfl⟩

/-- Output that lists one finding, with places as they are written. -/
def listing (places : String) : RawOutput where
  stdout := Text.Utf8.encodeString
    ("\x7b\"success\":false,\"errors\":[\x7b\"message\":\"m\"," ++ places ++ "\x7d]\x7d")
  exitCode := some 0

/-- The outcome that lists one finding. -/
def listed (d : Descriptor) : Outcome where
  success := false
  errors := [d]

theorem sendable_listed (h : d.Placeable "abcdef".toList) :
    Sendable (opened.document "u") (listed d) := by
  refine ⟨fun v hv => ?_, fun e he => ?_⟩
  · obtain rfl := Option.some_inj.mp hv
    decide
  · obtain rfl := List.mem_singleton.mp he
    exact h

/-- A finding at a line and a column is published there. -/
theorem validate_shows_line : ∃ o w',
    (replying (listing "\"line\":2,\"column\":1")).validate "u" opened = (.ok (some o), w') ∧
    w'.published = [⟨"u", some 1, [⟨⟨⟨2, 1⟩, ⟨2, 2⟩⟩, [.char 'm']⟩]⟩] := by
  have hread : (Transcript.translate false (listing "\"line\":2,\"column\":1")).result =
      .ok (listed { message := [.char 'm'], line := some 2, column := some 1 }) := by cbv
  obtain ⟨w₁, hasked, hcurrent, hpublished⟩ := asked_of_translate hread rfl
  obtain ⟨hshown, -⟩ := (replying (listing "\"line\":2,\"column\":1")).validate_shows rfl rfl
    hasked hcurrent
  obtain ⟨w', hvalidate, hlast⟩ := hshown (sendable_listed (by
    simp [Descriptor.Placeable, Coordinate, Descriptor.extent]))
  rw [hpublished] at hlast
  exact ⟨_, w', hvalidate, hlast⟩

/-- A finding on line −1 keeps the outcome of a current request from being published, and one of negative
length is published with its end before its start. -/
theorem validate_unshown_or_reversed :
    (∃ o w₁ f w', asked (listing "\"line\":-1") = (.ok o, w₁) ∧
      w₁.session.isCurrent "u" (requestId "u" opened) = true ∧
      (replying (listing "\"line\":-1")).validate "u" opened = (.error f, w') ∧
      w'.published = []) ∧
    (∃ o w', (replying (listing "\"offset\":5,\"length\":-3")).validate "u" opened =
        (.ok (some o), w') ∧
      w'.published = [⟨"u", some 1, [⟨⟨⟨0, 5⟩, ⟨0, 2⟩⟩, [.char 'm']⟩]⟩] ∧
      ¬ (⟨0, 5⟩ : Position) ≤ ⟨0, 2⟩) := by
  constructor
  · have hread : (Transcript.translate false (listing "\"line\":-1")).result =
        .ok (listed { message := [.char 'm'], line := some (-1) }) := by cbv
    obtain ⟨w₁, hasked, hcurrent, hpublished⟩ := asked_of_translate hread rfl
    have hunsendable : ¬ Sendable (opened.document "u")
        (listed { message := [.char 'm'], line := some (-1) }) := by
      intro h
      obtain ⟨⟨hline, -⟩, -⟩ := h.placeable _ List.mem_cons_self
      exact absurd hline (by decide)
    obtain ⟨f, w', hconclude, -, hlast⟩ := conclude_of_not_sendable hcurrent hunsendable
    rw [hpublished] at hlast
    refine ⟨_, w₁, f, w', hasked, hcurrent, ?_, hlast⟩
    exact (validate_of_analyze (replying (listing "\"line\":-1")) rfl hasked).trans hconclude
  · have hread : (Transcript.translate false (listing "\"offset\":5,\"length\":-3")).result =
        .ok (listed { message := [.char 'm'], offset := some 5, length := some (-3) }) := by cbv
    obtain ⟨w₁, hasked, hcurrent, hpublished⟩ := asked_of_translate hread rfl
    have hsendable : Sendable (opened.document "u")
        (listed { message := [.char 'm'], offset := some 5, length := some (-3) }) :=
      sendable_listed (Descriptor.placeable_of_offset rfl (by decide))
    obtain ⟨w', hconclude, hlast⟩ := conclude_of_sendable hcurrent hsendable
    rw [hpublished] at hlast
    refine ⟨listed { message := [.char 'm'], offset := some 5, length := some (-3) }, w', ?_, hlast, ?_⟩
    · exact (validate_of_analyze (replying (listing "\"offset\":5,\"length\":-3")) rfl
        hasked).trans hconclude
    · rw [Position.le_def]
      decide

end Service

end AnalyzerBridge
