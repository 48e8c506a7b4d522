/-
When the settings file can be read.

A file without a text, and a text that is no TOML, are as good as no file.  What is left
are the limits of the readers, which are not contained:

* `readContent_of_document`, `readContent_of_vacant` — what a file
  reads as, by what its bytes are;
* `content_cases` — the bytes of a file are a document, or it is vacant, or something in
  them explains a failure;
* `resolve_of_load`, `resolve_of_refusal` — the settings see of the file what loading it
  gives, and fail with it;
* `load_reads_iff` — so loading gives a table exactly if the file is legible, and
  otherwise there are no settings at all, whatever the other layers hold;
* `load_stray_byte` — one byte that is no UTF-8 is enough.

Design notes: which bytes are UTF-8 is said by the encoding of texts, and which texts are
documents and which go over a limit by the grammar of TOML, so the conditions speak about
the bytes and not about the steps of a reader.  The room that the reader has on its stack
is any function.
-/
import AnalyzerBridge.Proofs.Toml
import AnalyzerBridge.Proofs.Utf8
import AnalyzerBridge.Settings.Basic

namespace AnalyzerBridge.Settings

open Text.Utf8 (encode decode? decode?_eq_ok_iff fault_of_decode? encode_injective)
open Toml (Document Overruns)

/-- A file can be read: what bytes it has are the encoding of a text that goes over no limit. -/
def Legible (room : Toml.Room) : FileContent → Prop
  | .bytes bytes => ∃ text, bytes = encode text ∧ ∀ fault, ¬ Overruns room text fault
  | _ => True

/-- There is nothing in a file to take settings from: it has no text, or the text is no document and goes
over no limit. -/
def Vacant (room : Toml.Room) : FileContent → Prop
  | .bytes bytes => ∃ text, bytes = encode text ∧ (∀ t, ¬ Document room text t) ∧
      ∀ fault, ¬ Overruns room text fault
  | _ => True

/-- The text of a file goes over a limit, and the place in the text is known where it does. -/
def Overtaxes (room : Toml.Room) (content : FileContent) (fault : Toml.Fault) : Prop :=
  ∃ text, content = .bytes (encode text) ∧ Overruns room text fault ∧
    Toml.Place room [] (Text.unifyNewlines text) fault

/-- The bytes of a file are the reason for a failure: no character begins at the byte that is reported, or
the text is nested too deep at some place or has an integer there that is too long. -/
def Explains (room : Toml.Room) (content : FileContent) : Failure → Prop
  | .undecodable fault => ∃ text rest, content = .bytes (encode text ++ fault.byte :: rest) ∧
      fault.position = (encode text).length ∧
      ∀ c left, fault.byte :: rest ≠ String.utf8EncodeChar c ++ left
  | .tooDeep => Overtaxes room content .tooDeep
  | .integerTooLong digits => Overtaxes room content (.integerTooLong digits)
  | _ => False

/-! ### One file -/

section

variable {room : Toml.Room} {content : FileContent}

theorem readContent_of_document {text : List Char} {t : Table} (h : Document room text t) :
    readContent (.bytes (encode text)) room = .ok t := by
  have hdecode : decode? (encode text) = .ok text := decode?_eq_ok_iff.mpr rfl
  simp only [readContent, hdecode, Toml.parse_eq_ok_iff.mpr h]

theorem readContent_of_vacant (h : Vacant room content) : readContent content room = .ok [] := by
  cases content with
  | missing => rfl
  | directory => rfl
  | unreadable => rfl
  | bytes bytes =>
    obtain ⟨text, hbytes, hnone⟩ := h
    have hdecode : decode? bytes = .ok text := decode?_eq_ok_iff.mpr hbytes
    simp only [readContent, hdecode, Toml.parse_eq_malformed_iff.mpr hnone]

/-- The bytes of a file are a document, or it is vacant, or they explain the failure of its reader. -/
theorem content_cases (room : Toml.Room) (content : FileContent) :
    (∃ text t, content = .bytes (encode text) ∧ Document room text t) ∨ Vacant room content ∨
      ∃ f, readContent content room = .error f ∧ Explains room content f ∧ ¬ Legible room content := by
  cases content with
  | missing => exact .inr (.inl trivial)
  | directory => exact .inr (.inl trivial)
  | unreadable => exact .inr (.inl trivial)
  | bytes bytes =>
    cases hdecode : decode? bytes with
    | error fault =>
      obtain ⟨text, rest, rfl, hposition, hcut⟩ := fault_of_decode? hdecode
      refine .inr (.inr ⟨.undecodable fault, by simp only [readContent, hdecode],
        ⟨text, rest, rfl, hposition, hcut⟩, ?_⟩)
      -- the decoder stops, so no text has these bytes as its encoding
      rintro ⟨other, hbytes, -⟩
      rw [decode?_eq_ok_iff.mpr hbytes] at hdecode
      exact absurd hdecode (by simp)
    | ok text =>
      obtain rfl := decode?_eq_ok_iff.mp hdecode
      rcases Toml.parse_cases room text with ⟨t, -, hdocument⟩ | ⟨fault, hparse, hoverruns⟩ | hparse
      · exact .inl ⟨text, t, rfl, hdocument⟩
      · have hovertaxes : Overtaxes room (.bytes (encode text)) fault :=
          ⟨text, rfl, hoverruns, Toml.Breaks.cause hoverruns⟩
        -- an encoding belongs to one text only
        have hillegible : ¬ Legible room (.bytes (encode text)) := by
          rintro ⟨other, hbytes, hwithin⟩
          obtain rfl := encode_injective hbytes
          exact hwithin fault hoverruns
        cases fault with
        | malformed => exact absurd rfl hoverruns.ne_malformed
        | tooDeep =>
          exact .inr (.inr ⟨.tooDeep, by simp only [readContent, hdecode, hparse], hovertaxes, hillegible⟩)
        | integerTooLong digits =>
          exact .inr (.inr ⟨.integerTooLong digits, by simp only [readContent, hdecode, hparse],
            hovertaxes, hillegible⟩)
      · exact .inr (.inl ⟨text, rfl, Toml.parse_eq_malformed_iff.mp hparse⟩)

theorem Vacant.legible (h : Vacant room content) : Legible room content := by
  cases content with
  | missing => trivial
  | directory => trivial
  | unreadable => trivial
  | bytes bytes =>
    obtain ⟨text, hbytes, -, hwithin⟩ := h
    exact ⟨text, hbytes, hwithin⟩

/-- A document goes over no limit. -/
theorem legible_of_document {text : List Char} {t : Table} (h : Document room text t) :
    Legible room (.bytes (encode text)) := by
  refine ⟨text, rfl, fun fault hoverruns => ?_⟩
  have hfault := (Toml.parse_eq_error_iff hoverruns.ne_malformed).mpr hoverruns
  exact absurd ((Toml.parse_eq_ok_iff.mpr h).symm.trans hfault) (by simp)

end

/-! ### All layers -/

section

variable {files others : Files} {root file : Option PurePath} {room : Toml.Room}

theorem load_eq_readContent (hpath : (filePath root file).hasNull = false) :
    load files root file room = readContent (files (filePath root file)) room := by
  rw [load, hpath]
  rfl

/-- The settings depend on the file through what loading it gives. -/
theorem resolve_of_load (h : load files root file room = load others root file room) (env : Environment)
    (overrides : Table) :
    resolve files root file env overrides room = resolve others root file env overrides room := by
  rw [resolve, resolve, h]

theorem resolve_of_refusal {f : Failure} (h : load files root file room = .error f) (env : Environment)
    (overrides : Table) : resolve files root file env overrides room = .error f := by
  rw [resolve, h]

end

/-- Loading gives a table exactly if the file is legible, and a document gives the table that it denotes.
A vacant file is as good as none, in all that is built on it; a file that is not legible leaves no
settings, and the failure has its reason in the bytes. -/
theorem load_reads_iff (files : Files) (root file : Option PurePath) (room : Toml.Room)
    (hpath : (filePath root file).hasNull = false) :
    ((∃ t, load files root file room = .ok t) ↔ Legible room (files (filePath root file))) ∧
      (∀ text t, files (filePath root file) = .bytes (encode text) → Document room text t →
        load files root file room = .ok t) ∧
      (Vacant room (files (filePath root file)) → load files root file room = .ok [] ∧
        ∀ env overrides, resolve files root file env overrides room =
          resolve (fun _ => .missing) root file env overrides room) ∧
      ∀ f, load files root file room = .error f → Explains room (files (filePath root file)) f ∧
        ∀ env overrides, resolve files root file env overrides room = .error f := by
  have hload : load files root file room = readContent (files (filePath root file)) room :=
    load_eq_readContent hpath
  refine ⟨?_, fun text t hcontent hdocument => ?_, fun hvacant => ?_, fun f hf => ?_⟩
  · rw [hload]
    rcases content_cases room (files (filePath root file)) with
      ⟨text, t, hcontent, hdocument⟩ | hvacant | ⟨f, hf, -, hillegible⟩
    · rw [hcontent]
      exact iff_of_true ⟨t, readContent_of_document hdocument⟩ (legible_of_document hdocument)
    · exact iff_of_true ⟨[], readContent_of_vacant hvacant⟩ hvacant.legible
    · refine iff_of_false ?_ hillegible
      rintro ⟨t, ht⟩
      exact absurd (hf.symm.trans ht) (by simp)
  · rw [hload, hcontent]
    exact readContent_of_document hdocument
  · have hempty : load files root file room = .ok [] := hload.trans (readContent_of_vacant hvacant)
    have hnone : load (fun _ => .missing) root file room = .ok [] := load_eq_readContent hpath
    exact ⟨hempty, resolve_of_load (hempty.trans hnone.symm)⟩
  · refine ⟨?_, resolve_of_refusal hf⟩
    rw [hload] at hf
    rcases content_cases room (files (filePath root file)) with
      ⟨text, t, hcontent, hdocument⟩ | hvacant | ⟨f', hf', hreason, -⟩
    · rw [hcontent, readContent_of_document hdocument] at hf
      exact absurd hf (by simp)
    · exact absurd ((readContent_of_vacant hvacant).symm.trans hf) (by simp)
    · obtain rfl : f' = f := Except.error.inj (hf'.symm.trans hf)
      exact hreason

/-- A text that stops behind the first bracket of a header. -/
def openHeader : List Char := ['[']

theorem vacant_openHeader (room : Toml.Room) : Vacant room (.bytes (encode openHeader)) :=
  ⟨openHeader, rfl, Toml.parse_eq_malformed_iff.mp (by rfl)⟩

/-- A file that stops inside a header is as good as none, whatever room there is. -/
theorem load_reads_openHeader :
    (filePath none none).hasNull = false ∧
      ∀ room, load (fun _ => .bytes (encode openHeader)) none none room = .ok [] ∧
        ∀ env overrides, resolve (fun _ => .bytes (encode openHeader)) none none env overrides room =
          resolve (fun _ => .missing) none none env overrides room := by
  have hpath : (filePath none none).hasNull = false := by decide
  refine ⟨hpath, fun room => ?_⟩
  exact (load_reads_iff (fun _ => .bytes (encode openHeader)) none none room hpath).2.2.1
    (vacant_openHeader room)

/-- A file that is one byte FF has no table, and there are no settings, although a file that is missing
leaves the defaults; so it is whatever room there is. -/
theorem load_stray_byte :
    (filePath none none).hasNull = false ∧ ∀ room,
      (∀ t, load (fun _ => .bytes [0xFF]) none none room ≠ .ok t) ∧
      (∀ settings, resolve (fun _ => .bytes [0xFF]) none none {} [] room ≠ .ok settings) ∧
      ∃ settings, resolve (fun _ => .missing) none none {} [] room = .ok settings := by
  have hpath : (filePath none none).hasNull = false := by decide
  have hload (room : Toml.Room) : load (fun _ => .bytes [0xFF]) none none room =
      .error (.undecodable ⟨.startByte, 0xFF, 0, 1⟩) := by
    rw [load_eq_readContent hpath, readContent, decode?, Text.Utf8.decodeFrom]
    rfl
  refine ⟨hpath, fun room => ⟨fun t ht => ?_, fun settings hsettings => ?_, ?_⟩⟩
  · exact absurd ((hload room).symm.trans ht) (by simp)
  · exact absurd ((resolve_of_refusal (hload room) {} []).symm.trans hsettings) (by simp)
  · exact ⟨_, rfl⟩

end AnalyzerBridge.Settings
