/-
The records that travel as JSON.

A `Payload` is what the analyzer prints, an `OutcomeRecord` what the tools
print, and a `CommandRecord` what a client sends to ask for an analysis.  Each
has a reader that ignores fields it does not know and collects all problems.
Writing is the other direction: `Outcome.payload` leaves out what a finding does
not know, `OutcomeRecord.toValue` and `Descriptor.toValue` show it as absent.
-/
import AnalyzerBridge.Outcome
import AnalyzerBridge.Schema.Field

namespace AnalyzerBridge

/-- The fields of a finding besides its message, by name. -/
def Descriptor.places (d : Descriptor) : List (String × Option Int) :=
  [("offset", d.offset), ("length", d.length), ("line", d.line), ("column", d.column)]

/-- A finding with the places that it knows. -/
def Descriptor.payload (d : Descriptor) : Value :=
  .table (("message", Value.ofLoose d.message) ::
    d.places.filterMap fun p => p.2.map fun i => (p.1, Value.int i))

/-- A finding with all its places, unknown ones absent. -/
def Descriptor.toValue (d : Descriptor) : Value :=
  .table (("message", Value.ofLoose d.message) :: d.places.map fun p => (p.1, Value.ofInt? p.2))

/-- An outcome as the tools hand it on. -/
def Outcome.payload (o : Outcome) : Value :=
  .table [("success", .bool o.success), ("errors", .list (o.errors.map Descriptor.payload)),
    ("source", .text o.source.name), ("degraded", Value.ofText? (o.degraded.map Reason.name)),
    ("caveat", Value.ofText? o.caveat)]

namespace Schema

/-- What the analyzer prints about a source. -/
structure Payload where
  success : Bool
  errors : List Descriptor
  deriving DecidableEq

/-- An outcome as it is printed. -/
structure OutcomeRecord where
  success : Bool
  errors : List Descriptor
  source : LooseText
  degraded : Option LooseText
  caveat : Option LooseText
  deriving DecidableEq

/-- A client's request for an analysis. -/
structure CommandRecord where
  source : LooseText
  timeoutMs : Option Int
  requestId : Option LooseText
  deriving DecidableEq

/-- Reads the fields of a finding. -/
def readDescriptorFields (t : Table) : Checked Descriptor :=
  let place := fun name => fieldOr none t name (optional readInteger)
  let message := requiredField t "message" readText
  also (also (also (also (message.map Descriptor.mk) (place "offset")) (place "length"))
    (place "line")) (place "column")

/-- Reads a finding of the analyzer. -/
def readAnalyzerError : Reader Descriptor :=
  readRecord "AnalyzerErrorDTO" readDescriptorFields

/-- Reads a finding of an outcome. -/
def readOutcomeError : Reader Descriptor :=
  readRecord "ErrorDescriptorDTO" readDescriptorFields

/-- Reads what the analyzer prints. -/
def readPayload : Reader Payload :=
  readRecord "AnalyzerPayloadDTO" fun t =>
    both Payload.mk (requiredField t "success" readBool)
      (fieldOr [] t "errors" (readList readAnalyzerError))

/-- The name of the outcome record. -/
def outcomeRecordName : String := "AnalysisOutcomeDTO"

/-- Reads a printed outcome. -/
def readOutcome : Reader OutcomeRecord :=
  readRecord outcomeRecordName fun t =>
    let success := requiredField t "success" readBool
    let errors := fieldOr [] t "errors" (readList readOutcomeError)
    let source := fieldOr (LooseText.ofString Source.analyzer.name) t "source" readText
    let note := fun name => fieldOr none t name (optional readText)
    also (also (also (also (success.map OutcomeRecord.mk) errors) source) (note "degraded"))
      (note "caveat")

/-- The name of the command record. -/
def commandRecordName : String := "AnalyzeCommandDTO"

/-- Reads a client's request. -/
def readCommand : Reader CommandRecord :=
  readRecord commandRecordName fun t =>
    let source := requiredField t "source" readText
    also (also (source.map CommandRecord.mk) (fieldOr none t "timeout_ms" (optional readInteger)))
      (fieldOr none t "request_id" (optional readText))

/-- A printed outcome as a table. -/
def OutcomeRecord.fields (o : OutcomeRecord) : Table :=
  [("success", .bool o.success), ("errors", .list (o.errors.map Descriptor.toValue)),
    ("source", Value.ofLoose o.source), ("degraded", Value.ofLoose? o.degraded),
    ("caveat", Value.ofLoose? o.caveat)]

/-- A printed outcome as a value. -/
def OutcomeRecord.toValue (o : OutcomeRecord) : Value :=
  .table o.fields

/-- What the analyzer prints as a value. -/
def Payload.toValue (p : Payload) : Value :=
  .table [("success", .bool p.success), ("errors", .list (p.errors.map Descriptor.toValue))]

/-- A client's request as a value. -/
def CommandRecord.toValue (c : CommandRecord) : Value :=
  .table [("source", Value.ofLoose c.source), ("timeout_ms", Value.ofInt? c.timeoutMs),
    ("request_id", Value.ofLoose? c.requestId)]

end Schema

/-- The record of an outcome: its payload read back. -/
def Outcome.record (o : Outcome) : Schema.Checked Schema.OutcomeRecord :=
  Schema.readOutcome o.payload

end AnalyzerBridge
