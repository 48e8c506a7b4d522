/-
What is printed about an outcome, read as the output of an analyzer.

The record that is printed and the payload that is read are two schemas, with the
writer and the reader of JSON between them.

* `plain_toRecord` — what an outcome says can be spelled in JSON, unless a message has a
  lone surrogate or a place has too many digits;
* `readPayload_toRecord` — its record, however its fields are ordered, is read as a
  payload with the same success and the same findings;
* `payloadOf_printed` — so is the text that is printed, with blanks around it, by a
  reader with room for its three levels;
* `translate_of_printOutcome` — so the outcome comes back as the analyzer's own, if its
  success is the absence of findings.
-/
import AnalyzerBridge.Proofs.CommandLine
import AnalyzerBridge.Proofs.JsonText
import AnalyzerBridge.Proofs.Utf8

namespace AnalyzerBridge

/-- JSON can spell a finding: its message has no lone surrogate, and none of its places has more digits
than are read. -/
structure Descriptor.Spellable (d : Descriptor) : Prop where
  message : ∀ g ∈ d.message, ∃ c, g = .char c
  places : ∀ name i, (name, some i) ∈ d.places → i.natAbs < 10 ^ Number.digitLimit

/-! ### The record as a value -/

theorem LooseText.exists_ofString {t : LooseText} (h : ∀ g ∈ t, ∃ c, g = .char c) :
    ∃ s, t = LooseText.ofString s := by
  induction t with
  | nil => exact ⟨"", rfl⟩
  | cons g t ih =>
    obtain ⟨hg, ht⟩ := List.forall_mem_cons.mp h
    obtain ⟨c, rfl⟩ := hg
    obtain ⟨s, rfl⟩ := ih ht
    refine ⟨String.ofList (c :: s.toList), ?_⟩
    rw [LooseText.ofString, LooseText.ofString, String.toList_ofList, List.map_cons]

theorem plain_int? {i : Option Int} {limit depth : Nat} (hlimit : 0 < limit)
    (h : ∀ j, i = some j → j.natAbs < 10 ^ limit) : Json.Plain limit depth (Value.ofInt? i) := by
  cases i with
  | none => exact .null
  | some j => exact .int ((Nat.length_toDigits_le_iff (by decide) hlimit).mpr (h j rfl))

theorem plain_text (s : String) {limit depth : Nat} :
    Json.Plain limit depth (Value.ofLoose (LooseText.ofString s)) := by
  rw [Json.ofLoose_ofString]
  exact .text s

theorem plain_text? (s : Option String) {limit depth : Nat} :
    Json.Plain limit depth (Value.ofLoose? (s.map LooseText.ofString)) := by
  cases s with
  | none => exact .null
  | some s => exact plain_text s

theorem Descriptor.Spellable.plain {d : Descriptor} (h : d.Spellable) (depth : Nat) :
    Json.Plain Number.digitLimit (depth + 1) d.toValue := by
  obtain ⟨s, hs⟩ := LooseText.exists_ofString h.message
  have hmessage : Value.ofLoose d.message = .text s := by rw [hs, Json.ofLoose_ofString]
  refine .table (by simp [Descriptor.places]) ?_
  rw [List.forall_mem_cons, List.forall_mem_map]
  refine ⟨?_, fun p hp => ?_⟩
  · rw [hmessage]
    exact .text s
  · exact plain_int? (by decide) fun j hj => h.places p.1 j (by rwa [← hj])

/-- What an outcome says can be spelled in JSON if its findings can. -/
theorem plain_toRecord {o : Outcome} (h : ∀ d ∈ o.errors, d.Spellable) (depth : Nat) :
    Json.Plain Number.digitLimit (depth + 3) o.toRecord.toValue := by
  have herrors : ∀ v ∈ o.errors.map Descriptor.toValue, Json.Plain Number.digitLimit (depth + 1) v := by
    intro v hv
    obtain ⟨d, hd, rfl⟩ := List.mem_map.mp hv
    exact (h d hd).plain depth
  refine .table (by simp [Schema.OutcomeRecord.fields]) ?_
  simp only [Schema.OutcomeRecord.fields, List.forall_mem_cons]
  have hdegraded : Json.Plain Number.digitLimit (depth + 2)
      (Value.ofLoose? ((o.degraded.map Reason.name).map LooseText.ofString)) := plain_text? _
  rw [Option.map_map] at hdegraded
  exact ⟨.bool _, .list herrors, plain_text _, hdegraded, plain_text? _, List.forall_mem_nil _⟩

/-! ### The value as a payload -/

namespace Schema

/-- The fields of a finding with all its places. -/
def descriptorFields (d : Descriptor) : Table :=
  ("message", Value.ofLoose d.message) :: d.places.map fun p => (p.1, Value.ofInt? p.2)

theorem sorted_ofLoose (t : LooseText) : Json.sorted (Value.ofLoose t) = Value.ofLoose t := by
  rw [Value.ofLoose]
  split
  next => rfl
  next => rfl

/-- A place is read from its field, known or absent. -/
theorem fieldOr_place {t : Table} {name : String} {place : Option Int}
    (h : t.get? name = some (Json.sorted (Value.ofInt? place))) :
    fieldOr none t name (optional readInteger) = .ok place := by
  rw [fieldOr, h]
  cases place with
  | none => rfl
  | some i => rfl

/-- A finding comes back from all its places, in any order. -/
theorem readAnalyzerError_sorted (d : Descriptor) :
    readAnalyzerError (Json.sorted d.toValue) = .ok d := by
  obtain ⟨t, ht, hget⟩ := Json.sorted_table_get? (t := descriptorFields d)
    (by simp [descriptorFields, Descriptor.places])
  have hvalue : d.toValue = .table (descriptorFields d) := rfl
  rw [hvalue, ht]
  show readDescriptorFields t = .ok d
  refine readDescriptorFields_of_fields ?_ (fieldOr_place (hget "offset"))
    (fieldOr_place (hget "length")) (fieldOr_place (hget "line")) (fieldOr_place (hget "column"))
  rw [← sorted_ofLoose]
  exact hget "message"

theorem readItems_sorted (ds : List Descriptor) (index : Nat) :
    readItems readAnalyzerError index ((ds.map Descriptor.toValue).map Json.sorted) = .ok ds := by
  induction ds generalizing index with
  | nil => rfl
  | cons d ds ih =>
    rw [List.map_cons, List.map_cons, readItems, readAnalyzerError_sorted, ih]
    rfl

/-- The record of an outcome, in any order, is a payload with its success and its findings. -/
theorem readPayload_toRecord (o : Outcome) :
    readPayload (Json.sorted o.toRecord.toValue) = .ok ⟨o.success, o.errors⟩ := by
  obtain ⟨t, ht, hget⟩ := Json.sorted_table_get? (t := o.toRecord.fields)
    (by simp [OutcomeRecord.fields])
  have hsuccess : t.get? "success" = some (.bool o.success) := hget "success"
  have herrors : t.get? "errors" = some (.list ((o.errors.map Descriptor.toValue).map Json.sorted)) := by
    rw [← Json.sorted_list]
    exact hget "errors"
  have hread : readList readAnalyzerError (.list ((o.errors.map Descriptor.toValue).map Json.sorted)) =
      .ok o.errors := readItems_sorted o.errors 0
  rw [OutcomeRecord.toValue, ht]
  simp only [readPayload, readRecord, requiredField, fieldOr, hsuccess, herrors, hread]
  rfl

end Schema

/-! ### The printed text as the output of a run -/

namespace CommandLine

variable {o : Outcome} {before after : List Char}

theorem stdout_printed (o : Outcome) :
    (printed o).stdout.toList = (Json.pretty o.toRecord.toValue).toList ++ ['\n'] := by
  rw [printed, String.toList_append]
  rfl

/-- What is printed, with blanks around it, is a payload with the outcome's success and findings. -/
theorem payloadOf_printed {depth : Nat} (hdepth : 3 ≤ depth) (hspell : ∀ d ∈ o.errors, d.Spellable)
    (hbefore : ∀ c ∈ before, Text.isBlank c = true) (hafter : ∀ c ∈ after, Text.isBlank c = true) :
    Transcript.payloadOf (Text.Utf8.encode before ++ Text.Utf8.encode (printed o).stdout.toList ++
        Text.Utf8.encode after) depth =
      .ok (some ⟨o.success, o.errors⟩) := by
  obtain ⟨inner, hinner⟩ := Json.exists_pretty_table o.toRecord.fields
  have hrecord : (Json.pretty o.toRecord.toValue).toList =
      Char.ofNat 0x7B :: (inner ++ [Char.ofNat 0x7D]) := hinner
  obtain ⟨more, rfl⟩ := Nat.exists_eq_add_of_le' hdepth
  have hparse := Json.parse_pretty (plain_toRecord hspell more)
  -- the newline at the end of what is printed is one of the blanks behind the record
  have hblank : ∀ c ∈ '\n' :: after, Text.isBlank c = true := List.forall_mem_cons.mpr ⟨rfl, hafter⟩
  have hstrip : Text.strip (Text.Utf8.decodeLossy
      (Text.Utf8.encode (before ++ (printed o).stdout.toList ++ after))) =
        (Json.pretty o.toRecord.toValue).toList := by
    rw [Text.Utf8.decodeLossy_encode, stdout_printed, List.append_assoc, List.append_assoc, hrecord]
    exact Text.strip_between rfl rfl hbefore hblank inner
  have hsome : ((Json.pretty o.toRecord.toValue).toList).isEmpty = false := by
    rw [hrecord]
    rfl
  rw [← Text.Utf8.encode_append, ← Text.Utf8.encode_append, Transcript.payloadOf, hstrip]
  simp only [hsome, Bool.false_eq_true, if_false, hparse, Schema.readPayload_toRecord]

theorem outcomeOf_consistent {success : Bool} {errors : List Descriptor}
    (h : success = true ↔ errors = []) :
    Transcript.outcomeOf ⟨success, errors⟩ = .ofFindings .analyzer errors := by
  rw [Transcript.outcomeOf, if_neg]
  intro hsilent
  simp only [Bool.and_eq_true, Bool.not_eq_true', List.isEmpty_iff] at hsilent
  exact absurd (h.mpr hsilent.2) (by simp [hsilent.1])

/-- An outcome that succeeds exactly if it has no findings can be printed, with exit code one exactly if it
fails; and an analyzer that prints the same, with blanks around it, and exits with zero, is read as having
reported the same success and the same findings, by every reader with room for three levels. -/
theorem translate_of_printOutcome (hsuccess : o.success = true ↔ o.errors = [])
    (hspell : ∀ d ∈ o.errors, d.Spellable) :
    o.record = .ok o.toRecord ∧
    ∃ p, printOutcome o = .ok p ∧ (p.exitCode = 1 ↔ o.success = false) ∧
      ∀ (strict : Bool) (depth : Nat) (raw : RawOutput) (before after : List Char), 3 ≤ depth →
        raw.timedOut = false → raw.cancelled = false → raw.exitCode = some 0 →
        (∀ c ∈ before, Text.isBlank c = true) → (∀ c ∈ after, Text.isBlank c = true) →
        raw.stdout = Text.Utf8.encode before ++ Text.Utf8.encode p.stdout.toList ++
          Text.Utf8.encode after →
        Transcript.translate strict raw depth =
          ⟨[], .ok { success := o.success, errors := o.errors, source := .analyzer,
                     degraded := none, caveat := none }⟩ := by
  refine ⟨o.record_eq, printed o, printOutcome_eq o, ?_, ?_⟩
  · rw [printed]
    cases o.success with
    | true => simp
    | false => simp
  · intro strict depth raw before after hdepth htime hcancel hexit hbefore hafter hstdout
    have hpayload := payloadOf_printed hdepth hspell hbefore hafter
    have houtcome : Outcome.ofFindings .analyzer o.errors =
        { success := o.success, errors := o.errors } := by
      have hempty : o.errors.isEmpty = o.success := by
        rw [Bool.eq_iff_iff, List.isEmpty_iff, hsuccess]
      rw [Outcome.ofFindings, hempty]
    rw [Transcript.translate, htime, hcancel, hexit, hstdout]
    simp only [Bool.false_eq_true, if_false, if_true, Transcript.translateSuccess, hpayload,
      outcomeOf_consistent hsuccess, houtcome]

/-- A fallback whose finding needs every kind of escape, and has a negative place. -/
def motley : Outcome where
  success := false
  errors := [{ message := [.char '"', .char '\n', .char (Char.ofNat 1), .char (Char.ofNat 0x1F600)]
               offset := some (-1) }]
  source := .heuristic
  degraded := some .timeout
  caveat := some "late"

theorem spellable_motley : ∀ d ∈ motley.errors, d.Spellable := by
  have hone : 1 < 10 ^ Number.digitLimit := Nat.one_lt_pow (by decide) (by decide)
  refine List.forall_mem_cons.mpr ⟨⟨?_, ?_⟩, List.forall_mem_nil _⟩
  · simp
  · intro name i h
    obtain ⟨-, rfl⟩ : name = "offset" ∧ i = -1 := by simpa [Descriptor.places] using h
    exact hone

theorem translate_of_printOutcome_motley :
    (motley.success = true ↔ motley.errors = []) ∧ (∀ d ∈ motley.errors, d.Spellable) ∧
    motley.record = .ok motley.toRecord ∧
    ∃ p, printOutcome motley = .ok p ∧ p.exitCode = 1 ∧
      Transcript.translate true
          { stdout := Text.Utf8.encode ['\t', Char.ofNat 0x3000] ++
              Text.Utf8.encode p.stdout.toList ++ Text.Utf8.encode ['\r']
            exitCode := some 0 } =
        ⟨[], .ok { success := false, errors := motley.errors }⟩ := by
  have hsuccess : motley.success = true ↔ motley.errors = [] := by simp [motley]
  obtain ⟨hrecord, p, hprint, hexit, htranslate⟩ :=
    translate_of_printOutcome hsuccess spellable_motley
  have hbefore : ∀ c ∈ ['\t', Char.ofNat 0x3000], Text.isBlank c = true :=
    List.forall_mem_cons.mpr ⟨rfl, List.forall_mem_singleton.mpr rfl⟩
  have hafter : ∀ c ∈ ['\r'], Text.isBlank c = true := List.forall_mem_singleton.mpr rfl
  refine ⟨hsuccess, spellable_motley, hrecord, p, hprint, hexit.mpr rfl, ?_⟩
  exact htranslate true _ _ ['\t', Char.ofNat 0x3000] ['\r'] (by decide) rfl rfl rfl hbefore hafter rfl

end CommandLine

end AnalyzerBridge
