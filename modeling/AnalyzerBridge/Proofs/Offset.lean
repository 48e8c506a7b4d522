/-
Offsets and positions are worth the same.

A text is cut into lines at its line feeds, and a position is a line and a character in it.
Going through a text, some lines are complete and one is begun; their number and the length
of the one that is begun are the position.

* `exists_rows` — the complete lines and the one that is begun, whatever follows;
* `offsetOf_placeAt` — so the position of an offset leads back to it, once it is moved into
  the text;
* `strictMonoOn_positionAt` — positions come in the order of their offsets;
* `offsets_exact` — the range of a finding is converted back to the stretch of text that it
  covers.

Design notes: these are the lines that positions count; a line break of any other kind
is a character of its line here.
-/
import AnalyzerBridge.Proofs.Placement

namespace AnalyzerBridge

/-- The offset of a position: the lines above with a line feed each, and the characters in front of it in
its line. -/
def offsetOf (lines : List (List Char)) (p : Position) : Int :=
  ((lines.take p.line.toNat).map fun line => (line.length : Int) + 1).sum + p.character

/-! ### Positions -/

/-- The complete lines at the end of a part of a text, and the line that is begun there. -/
theorem exists_rows (before : List Char) :
    ∃ rows : List (List Char), ∃ row : List Char,
      rows.length = newlineCount before ∧ row.length = columnCount before ∧
      (rows.map fun line => (line.length : Int) + 1).sum + row.length = before.length ∧
      ∀ after first more, after.splitOn '\n' = first :: more →
        (before ++ after).splitOn '\n' = rows ++ (row ++ first) :: more := by
  induction before using List.reverseRecOn with
  | nil => exact ⟨[], [], rfl, rfl, rfl, fun after first more h => h⟩
  | append_singleton before c ih =>
    obtain ⟨rows, row, hrows, hrow, hsum, hsplit⟩ := ih
    rw [newlineCount_snoc, columnCount_snoc]
    by_cases hc : c = '\n'
    · -- the line feed completes the line
      refine ⟨rows ++ [row], [], ?_, ?_, ?_, fun after first more h => ?_⟩
      · rw [if_pos hc, List.length_append, hrows, List.length_singleton]
      · rw [if_pos hc, List.length_nil]
      · rw [List.map_append, List.sum_append, List.length_append, List.map_singleton,
          List.sum_singleton, List.length_singleton, List.length_nil]
        push_cast
        omega
      · have hnext : (c :: after).splitOn '\n' = [] :: first :: more := by
          rw [List.splitOn_eq_splitOnP, List.splitOnP_cons_eq_if_modifyHead, if_pos (by simp [hc]),
            ← List.splitOn_eq_splitOnP, h]
        rw [List.append_assoc, List.singleton_append, hsplit (c :: after) [] (first :: more) hnext]
        simp
    · refine ⟨rows, row ++ [c], ?_, ?_, ?_, fun after first more h => ?_⟩
      · rw [if_neg hc, hrows, Nat.add_zero]
      · rw [if_neg hc, List.length_append, hrow, List.length_singleton]
      · rw [List.length_append, List.length_append, List.length_singleton]
        push_cast
        omega
      · have hnext : (c :: after).splitOn '\n' = (c :: first) :: more := by
          rw [List.splitOn_eq_splitOnP, List.splitOnP_cons_eq_if_modifyHead, if_neg (by simp [hc]),
            ← List.splitOn_eq_splitOnP, h, List.modifyHead_cons]
        rw [List.append_assoc, List.singleton_append, hsplit (c :: after) (c :: first) more hnext,
          List.append_assoc]
        rfl

theorem clampOffset_eq (size : Nat) (offset : Int) :
    (clampOffset size offset : Int) = max 0 (min offset size) := by
  rw [clampOffset, Int.toNat_of_nonneg (le_max_left _ _)]

/-- The position of an offset is in a line of the text, and leads back to the offset. -/
theorem offsetOf_placeAt (text : List Char) (offset : Int) :
    (∃ line, (text.splitOn '\n')[(placeAt text offset).line.toNat]? = some line ∧
      (placeAt text offset).character ≤ line.length) ∧
    offsetOf (text.splitOn '\n') (placeAt text offset) = max 0 (min offset text.length) := by
  have hclamp := clampOffset_le text.length offset
  rw [← clampOffset_eq]
  generalize hi : clampOffset text.length offset = i at hclamp ⊢
  obtain ⟨rows, row, hrows, hrow, hsum, hsplit⟩ := exists_rows (text.take i)
  obtain ⟨first, more, hafter⟩ := List.exists_cons_of_ne_nil (List.splitOn_ne_nil '\n' (text.drop i))
  have hlines := hsplit _ _ _ hafter
  rw [List.take_append_drop] at hlines
  have hplace : placeAt text offset = ⟨rows.length, row.length⟩ := by
    simp only [placeAt, positionAt, hi, hrows, hrow]
  rw [List.length_take, min_eq_left hclamp] at hsum
  rw [hplace, hlines, offsetOf]
  simp only [Int.toNat_natCast, List.take_left]
  refine ⟨⟨row ++ first, ?_, ?_⟩, hsum⟩
  · rw [List.getElem?_append_right le_rfl, Nat.sub_self, List.getElem?_cons_zero]
  · rw [List.length_append]
    omega

/-- Positions come in the order of the offsets in the text. -/
theorem strictMonoOn_positionAt (text : List Char) :
    StrictMonoOn (fun i : ℤ => toLex (positionAt text i)) (Set.Icc 0 text.length) := by
  rintro i ⟨hi, hi'⟩ j ⟨hj, hj'⟩ hij
  have hclamp := clampOffset_cases text.length i
  have hclamp' := clampOffset_cases text.length j
  have hlt : clampOffset text.length i < clampOffset text.length j := by omega
  exact endOf_take_lt hlt (clampOffset_le text.length j)

/-! ### Ranges -/

namespace Descriptor

variable {d : Descriptor}

theorem extent_pos (h : ∀ n, d.length = some n → 0 ≤ n) : 0 < d.extent := by
  rw [extent]
  cases hlength : d.length with
  | none => exact Int.one_pos
  | some n =>
    have hn := h n hlength
    show (0 : Int) < if n = 0 then 1 else n
    split <;> omega

/-- The range of a finding with an offset leads back to where it begins and where it ends. -/
theorem exists_range {text : List Char} {offset : Int} (hoffset : d.offset = some offset)
    (hlength : ∀ n, d.length = some n → 0 ≤ n) (h : text.length < 2 ^ 31) :
    ∃ r, descriptorRange text d = .ok r ∧ r.start ≤ r.stop ∧
      offsetOf (text.splitOn '\n') r.start = max 0 (min offset text.length) ∧
      offsetOf (text.splitOn '\n') r.stop = max 0 (min (offset + d.extent) text.length) := by
  have hspan : d.span text = ⟨placeAt text offset, placeAt text (offset + d.extent)⟩ := by
    simp only [span, hoffset]
  have hlegal : (d.span text).Legal :=
    legal_span_iff.mpr (placeable_of_offset (by rw [hoffset]; rfl) h)
  refine ⟨d.span text, by rw [descriptorRange_eq, Position.makeRange_of_legal hlegal],
    ordered_span_iff.mpr (forward_of_extent (extent_pos hlength).le _), ?_⟩
  rw [hspan]
  exact ⟨(offsetOf_placeAt text offset).2, (offsetOf_placeAt text (offset + d.extent)).2⟩

end Descriptor

/-- In a text of less than 2^31 characters each offset has a position, which is in one of the lines between
line feeds and leads back to the offset moved into the text, and positions come in the order of the offsets
in the text.  A finding with an offset and no negative length has a range that does not run backwards and
leads back to the stretch that it covers, as far as that is in the text; and the stretch of a finding of
the scan is. -/
theorem offsets_exact {source : String} (h : source.length < 2 ^ 31) :
    (∀ offset : Int, ∃ p line,
      Position.make (positionAt source.toList offset).1 (positionAt source.toList offset).2 = .ok p ∧
      0 ≤ p.line ∧ (source.toList.splitOn '\n')[p.line.toNat]? = some line ∧
      0 ≤ p.character ∧ p.character ≤ line.length ∧
      offsetOf (source.toList.splitOn '\n') p = max 0 (min offset source.length)) ∧
    StrictMonoOn (fun i : ℤ => toLex (positionAt source.toList i)) (Set.Icc 0 source.length) ∧
    Set.InjOn (fun i : ℤ => positionAt source.toList i) (Set.Icc 0 source.length) ∧
    (∀ (d : Descriptor) (offset : Int), d.offset = some offset → (∀ n, d.length = some n → 0 ≤ n) →
      ∃ r, descriptorRange source.toList d = .ok r ∧ r.start ≤ r.stop ∧
        offsetOf (source.toList.splitOn '\n') r.start = max 0 (min offset source.length) ∧
        offsetOf (source.toList.splitOn '\n') r.stop =
          max 0 (min (offset + d.extent) source.length)) ∧
    ∀ d ∈ Scan.validate (.text source), ∃ offset r,
      d.offset = some offset ∧ 0 ≤ offset ∧ 0 < d.extent ∧ offset + d.extent ≤ source.length ∧
      descriptorRange source.toList d = .ok r ∧ r.start ≤ r.stop ∧
      offsetOf (source.toList.splitOn '\n') r.start = offset ∧
      offsetOf (source.toList.splitOn '\n') r.stop = offset + d.extent := by
  rw [← String.length_toList] at h ⊢
  have hmono := strictMonoOn_positionAt source.toList
  refine ⟨fun offset => ?_, hmono, hmono.injOn, fun d offset hoffset hlength =>
    Descriptor.exists_range hoffset hlength h, fun d hd => ?_⟩
  · obtain ⟨⟨line, hline, hcharacter⟩, hback⟩ := offsetOf_placeAt source.toList offset
    exact ⟨placeAt source.toList offset, line, Position.make_of_legal (legal_placeAt h offset),
      Int.natCast_nonneg _, hline, Int.natCast_nonneg _, hcharacter, hback⟩
  · have hfound : d ∈ Scan.findings source.toList := hd
    obtain ⟨i, hoffset, hpos, hle, hlength⟩ := Scan.stretch_of_mem_findings hfound
    obtain ⟨r, hr, hordered, hstart, hstop⟩ := Descriptor.exists_range hoffset hlength h
    exact ⟨i, r, hoffset, Int.natCast_nonneg i, hpos, hle, hr, hordered, hstart.trans (by omega),
      hstop.trans (by omega)⟩

/-- An arrow below a line feed covers two characters there. -/
theorem offsets_exact_arrow :
    "f()\n => x".length < 2 ^ 31 ∧ Scan.arrowFinding 5 ∈ Scan.validate (.text "f()\n => x") ∧
      ∃ r, descriptorRange "f()\n => x".toList (Scan.arrowFinding 5) = .ok r ∧
        r = ⟨⟨1, 1⟩, ⟨1, 3⟩⟩ ∧
        offsetOf ("f()\n => x".toList.splitOn '\n') r.start = 5 ∧
        offsetOf ("f()\n => x".toList.splitOn '\n') r.stop = 7 := by
  have hlength : "f()\n => x".length < 2 ^ 31 := by
    show 9 < 2 ^ 31
    norm_num
  have hmem : Scan.arrowFinding 5 ∈ Scan.validate (.text "f()\n => x") := by
    have hfindings : Scan.validate (.text "f()\n => x") = [Scan.arrowFinding 5] := by decide
    rw [hfindings]
    exact List.mem_cons_self
  obtain ⟨-, -, -, -, hscan⟩ := offsets_exact hlength
  obtain ⟨offset, r, hoffset, -, -, -, hr, -, hstart, hstop⟩ := hscan _ hmem
  obtain rfl : 5 = offset := Option.some_inj.mp hoffset
  refine ⟨hlength, hmem, r, hr, ?_, hstart, hstop⟩
  exact Except.ok.inj (hr.symm.trans rfl)

end AnalyzerBridge
