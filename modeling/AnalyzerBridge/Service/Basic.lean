/-
The language service.

`Service.validate` analyzes the text of a document and publishes the findings, as
long as no newer request came in between; `Service.handle` is the response to the
notifications of a client, `hover` and `completionLabels` answer its questions,
and `execute` runs the analyze command.

Design notes: settings are loaded when they are first needed and kept from then
on; a failure to load them is not kept.
-/
import AnalyzerBridge.Coordinator
import AnalyzerBridge.Schema.Record
import AnalyzerBridge.Service.Symbol

namespace AnalyzerBridge

/-- Where a service finds its settings and its analyzer, and how much room the readers of both have on
the stack. -/
structure Service (ε : Type) where
  files : Files := fun _ => .missing
  root : Option PurePath := none
  environment : Settings.Environment := {}
  invoke : Invoker ε
  room : Toml.Room := Toml.runRoom
  depth : Nat := Json.runDepth

namespace Service

variable {ε : Type}

/-- The command that analyzes a source. -/
def analyzeCommand : String := "ergols.analyze"

/-- The name under which findings are published. -/
def diagnosticSource : String := "ergoscript"

/-- The coordinator, with the settings loaded if they are not yet. -/
def coordinator (s : Service ε) : Act (Workspace ε) (Coordinator ε) := do
  match ← Act.look Workspace.settings with
  | some settings => return { settings := settings, invoke := s.invoke, depth := s.depth }
  | none =>
    let settings ← Act.ofExcept (Settings.resolve s.files s.root none s.environment [] s.room)
    Act.change fun w => { w with settings := some settings }
    return { settings := settings, invoke := s.invoke, depth := s.depth }

/-- A finding as a client shows it. -/
def diagnostic (text : List Char) (d : Descriptor) : Except Failure Diagnostic :=
  (descriptorRange text d).map fun range => ⟨range, d.message⟩

/-- The findings of an outcome as a client shows them. -/
def diagnostics (text : List Char) (o : Outcome) : Except Failure (List Diagnostic) :=
  o.errors.mapM (diagnostic text)

/-- The findings of an outcome on a document as they are sent.  A finding or a version that cannot be
sent is a failure, in this order. -/
def publication (uri : String) (d : Document) (o : Outcome) : Except Failure Publication := do
  let shown ← diagnostics d.text.toList o
  let version ← d.version.mapM BoundedField.version.check
  return ⟨uri, version, shown⟩

/-- Publishes the findings of an outcome on a document. -/
def publish (uri : String) (d : Document) (o : Outcome) : Act (Workspace ε) Unit := do
  let sent ← Act.ofExcept (publication uri d o)
  Act.change fun w => { w with published := w.published ++ [sent] }

/-- Shows the caveat of an outcome, if it has one. -/
def showCaveat (o : Outcome) : Act (Workspace ε) Unit :=
  match o.caveat with
  | none | some "" => pure ()
  | some caveat =>
    Act.change fun w => { w with messages := w.messages ++ ["ergols: " ++ caveat] }

/-- The request to analyze the text of a document. -/
def request (uri id : String) (d : Document) (settings : Settings) : Request :=
  { source := d.text, id := id, deadlineMs := settings.timeoutMs, uri := some uri }

/-- Publishes what the scan found on a document, as long as the request is the newest one. -/
def early (uri : String) (d : Document) : Listener ε := fun request scanned => do
  if ← Workspace.isCurrent uri request.id then publish uri d scanned

/-- Publishes the outcome of a request on a document if the request is still the newest one, and
drops it otherwise. -/
def conclude (uri id : String) (d : Document) (o : Outcome) :
    Act (Workspace ε) (Option Outcome) := do
  if ← Workspace.isCurrent uri id then
    showCaveat o
    publish uri d o
    return some o
  else
    Workspace.note [⟨.debug, .service, "dropping stale outcome for " ++ id⟩]
    return none

/-- Analyzes the text of a document and publishes the findings, first those of the scan.  Nothing is
published, and there is no outcome, once a newer request or the closing of the document came in
between. -/
def validate (s : Service ε) (uri : String) : Act (Workspace ε) (Option Outcome) := do
  let document ← Act.look fun w => w.document uri
  let id ← Workspace.nextRequestId uri
  let c ← s.coordinator
  let outcome ← c.analyze (request uri id document c.settings) (some (early uri document))
  conclude uri id document outcome

/-- Forgets a document and clears its findings. -/
def close (uri : String) : Act (Workspace ε) Unit := do
  Workspace.onSession fun s => s.close uri
  Act.change fun w => { w with published := w.published ++ [⟨uri, none, []⟩] }

/-- A notification of a client: the text of a document is new, or the document was closed. -/
inductive Notification where
  | refresh (uri : String)
  | close (uri : String)
  deriving DecidableEq

/-- The response to a notification. -/
def handle (s : Service ε) : Notification → Act (Workspace ε) Unit
  | .refresh uri => do let _ ← s.validate uri
  | .close uri => close uri

/-- The explanation of the symbol at a cursor, which the document converts into an offset. -/
def hover (uri : String) (line character : Int) (offsetAt : OffsetAt := cursorOffset) :
    Act (Workspace ε) (Option String) := do
  let cursor ← Act.ofExcept (Position.make line character)
  let document ← Act.look fun w => w.document uri
  let text := document.text.toList
  let offset := offsetAt text cursor.line.toNat cursor.character.toNat
  return (Symbol.wordAt text offset).bind fun word => Symbol.hover? (String.ofList word)

/-- The labels of all completions. -/
def completionLabels : List String :=
  Symbol.completions.map Symbol.Completion.label

/-! ### The analyze command -/

/-- The answer to the analyze command. -/
inductive Response where
  | refused (errors : List String)
  | answered (record : Schema.OutcomeRecord) (success : Bool)

/-- The number that an answer reports: 0 for a success, 1 for findings, 2 for a refusal. -/
def Response.exitCode : Response → Nat
  | .refused _ => 2
  | .answered _ success => if success then 0 else 1

/-- The payload of the analyze command, which has to be a table. -/
def requirePayload (payload : Value) : Except Failure Table :=
  match payload with
  | .null => .error (.breach (.missingPayload analyzeCommand))
  | .table t => .ok t
  | v => .error (.breach (.payloadKind analyzeCommand v.kind))

/-- The time that a command asks for; none and zero leave it to the settings. -/
def effectiveTimeout (asked : Option Int) (settings : Settings) : Int :=
  match asked with
  | some ms => if ms = 0 then settings.timeoutMs else ms
  | none => settings.timeoutMs

/-- Runs the analyze command. -/
def execute (s : Service ε) (payload : Value) : Act (Workspace ε) Response := do
  let t ← Act.ofExcept (requirePayload payload)
  match Schema.readCommand (.table t) with
  | .error problems => return .refused [Schema.report Schema.commandRecordName problems]
  | .ok command =>
    let c ← s.coordinator
    let timeout := effectiveTimeout command.timeoutMs c.settings
    if timeout ≤ 0 then return .refused ["timeout_ms must be positive"]
    let id ← match command.requestId with
      | none | some [] => Workspace.nextRequestId analyzeCommand
      | some id => pure id.replaced
    let outcome ← c.analyze
      { source := command.source.replaced, id := id, deadlineMs := timeout } none
    let record ← Act.ofExcept (outcome.record.mapError .invalid)
    return .answered record outcome.success

end Service

end AnalyzerBridge
