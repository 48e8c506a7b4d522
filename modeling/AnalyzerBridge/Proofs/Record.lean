/-
Records are read back as they were written.

An outcome is handed on as a payload that leaves out what a finding does not know,
and read back into the record that is printed.

* `readText_ofLoose` — a text comes back, lone surrogates included;
* `readRecord_payload` — a finding comes back from the places it knows;
* `Outcome.record_eq` — so every outcome has a record, and it says what the outcome
  says.
-/
import AnalyzerBridge.Schema.Record

namespace AnalyzerBridge

namespace LooseText

theorem eq_map_of_toChars? {t : LooseText} {chars : List Char} (h : t.toChars? = some chars) :
    t = chars.map .char := by
  induction t generalizing chars with
  | nil =>
    obtain rfl : [] = chars := by simpa [toChars?] using h
    rfl
  | cons g rest ih =>
    cases g with
    | lone u => simp [toChars?] at h
    | char c =>
      rw [toChars?, List.mapM_cons] at h
      obtain ⟨_, hc, hrest⟩ := Option.bind_eq_some_iff.mp h
      obtain ⟨tail, htail, hchars⟩ := Option.bind_eq_some_iff.mp hrest
      obtain rfl := Option.some_inj.mp hc
      obtain rfl := Option.some_inj.mp hchars
      rw [ih htail, List.map_cons]

theorem ofString_of_toString? {t : LooseText} {s : String} (h : t.toString? = some s) :
    ofString s = t := by
  obtain ⟨chars, hchars, rfl⟩ := Option.map_eq_some_iff.mp h
  rw [ofString, String.toList_ofList]
  exact (eq_map_of_toChars? hchars).symm

theorem replaced_ofString (s : String) : (ofString s).replaced = s := by
  have hchars : s.toList.map (Glyph.replaced ∘ Glyph.char) = s.toList := List.map_id _
  rw [replaced, ofString, List.map_map, hchars, String.ofList_toList]

end LooseText

namespace Schema

theorem readText_ofLoose (t : LooseText) : readText (Value.ofLoose t) = .ok t := by
  rw [Value.ofLoose]
  cases h : t.toString? with
  | none => rfl
  | some s =>
    show Except.ok (LooseText.ofString s) = _
    rw [LooseText.ofString_of_toString? h]

/-- A finding is read from any table that has its message and, as far as it knows them, its places. -/
theorem readDescriptorFields_of_fields {t : Table} {d : Descriptor}
    (hmessage : t.get? "message" = some (Value.ofLoose d.message))
    (hoffset : fieldOr none t "offset" (optional readInteger) = .ok d.offset)
    (hlength : fieldOr none t "length" (optional readInteger) = .ok d.length)
    (hline : fieldOr none t "line" (optional readInteger) = .ok d.line)
    (hcolumn : fieldOr none t "column" (optional readInteger) = .ok d.column) :
    readDescriptorFields t = .ok d := by
  simp only [readDescriptorFields, requiredField, hmessage, readText_ofLoose, hoffset, hlength, hline,
    hcolumn]
  rfl

/-- A finding comes back from its payload. -/
theorem readRecord_payload (record : String) (d : Descriptor) :
    readRecord record readDescriptorFields d.payload = .ok d := by
  obtain ⟨message, offset, length, line, column⟩ := d
  -- whichever places are known, each name is looked up among them
  refine readDescriptorFields_of_fields ?_ ?_ ?_ ?_ ?_
  · rfl
  all_goals cases offset <;> cases length <;> cases line <;> cases column <;> rfl

theorem readItems_payload (record : String) (ds : List Descriptor) (index : Nat) :
    readItems (readRecord record readDescriptorFields) index (ds.map Descriptor.payload) = .ok ds := by
  induction ds generalizing index with
  | nil => rfl
  | cons d ds ih =>
    rw [List.map_cons, readItems, readRecord_payload, ih]
    rfl

end Schema

/-- What an outcome says, as a record. -/
def Outcome.toRecord (o : Outcome) : Schema.OutcomeRecord where
  success := o.success
  errors := o.errors
  source := o.source.name
  degraded := o.degraded.map fun reason => LooseText.ofString reason.name
  caveat := o.caveat.map LooseText.ofString

/-- Every outcome has a record, and it says what the outcome says. -/
theorem Outcome.record_eq (o : Outcome) : o.record = .ok o.toRecord := by
  obtain ⟨success, errors, source, degraded, caveat⟩ := o
  have herrors : Schema.readList Schema.readOutcomeError (.list (errors.map Descriptor.payload)) =
      .ok errors := Schema.readItems_payload _ errors 0
  have hread : ∀ t : Table, t.get? "success" = some (.bool success) →
      t.get? "errors" = some (.list (errors.map Descriptor.payload)) →
      t.get? "source" = some (.text source.name) →
      t.get? "degraded" = some (Value.ofText? (degraded.map Reason.name)) →
      t.get? "caveat" = some (Value.ofText? caveat) →
      Schema.readOutcome (.table t) =
        .ok ⟨success, errors, source.name, degraded.map fun reason => LooseText.ofString reason.name,
          caveat.map LooseText.ofString⟩ := by
    intro t hs he hn hd hc
    simp only [Schema.readOutcome, Schema.readRecord, Schema.requiredField, Schema.fieldOr, hs, he, hn,
      hd, hc, herrors]
    cases degraded <;> cases caveat <;> rfl
  exact hread _ rfl rfl rfl rfl rfl

end AnalyzerBridge
