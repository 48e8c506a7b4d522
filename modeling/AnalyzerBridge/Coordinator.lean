/-
Arbitration between the scan and the analyzer.

`Coordinator.analyze` answers one request.  The scan comes first, and whoever
listens hears of its findings at once.  Then the analyzer is called; its outcome
stands if it completed, and otherwise the outcome of the scan does, marked with
the reason.

Design notes: the analyzer and the listeners are operations on the workspace, so
that they may do anything there, such as starting another request.  A request of
a document is removed from the session on every way out.  The depth to which the
output of the analyzer may nest is a field, because it depends on the stack.
-/
import AnalyzerBridge.Scan.Findings
import AnalyzerBridge.Transcript
import AnalyzerBridge.Workspace

namespace AnalyzerBridge

/-- A request to analyze a source, possibly that of a document. -/
structure Request where
  source : String
  id : String
  deadlineMs : Int
  uri : Option String := none
  deriving DecidableEq, Inhabited

/-- One call of the analyzer. -/
structure Call where
  command : String
  args : List String
  timeoutMs : Int
  deriving DecidableEq, Inhabited

/-- Runs the analyzer for a call, with the token that cancels it. -/
abbrev Invoker (ε : Type) := Call → Token → Act (Workspace ε) RawOutput

/-- Hears of what the scan found for a request. -/
abbrev Listener (ε : Type) := Request → Outcome → Act (Workspace ε) Unit

/-- The settings, the analyzer, who listens when a request brings no listener of its own, and how deep
the output of the analyzer may nest. -/
structure Coordinator (ε : Type) where
  settings : Settings
  invoke : Invoker ε
  listener : Option (Listener ε) := none
  depth : Nat := Json.runDepth

/-- The outcome of the scan under some settings. -/
def Settings.scanOutcome (s : Settings) (source : String) : Outcome :=
  if s.heuristicsEnabled then Outcome.ofFindings .heuristic (Scan.validate (.text source))
  else { success := true, source := .heuristic }

/-- The call of the analyzer for a request: the source is its last argument. -/
def Settings.call (s : Settings) (request : Request) : Call :=
  { command := s.command
    args := s.args ++ [request.source]
    timeoutMs := request.deadlineMs }

namespace Coordinator

variable {ε : Type}

/-- Registers a request; one without a document gets a token of its own. -/
def enter (request : Request) : Act (Workspace ε) Token := fun w =>
  let (token, session) := match request.uri with
    | some uri => w.session.begin uri request.id
    | none => w.session.issue
  (.ok token, { w with session := session })

/-- Removes a request. -/
def leave (request : Request) : Act (Workspace ε) Unit :=
  match request.uri with
  | some uri => Workspace.onSession fun s => s.finish uri request.id
  | none => pure ()

/-- The caveat of a fallback. -/
def fallbackCaveat (reason : Reason) (detail : String) : String :=
  "analyzer unavailable (" ++ reason.name ++ "): " ++ detail

/-- The outcome of the scan in place of that of the analyzer. -/
def fallBack (request : Request) (scanned : Outcome) (reason : Reason) (detail : String) :
    Act (Workspace ε) Outcome := do
  Workspace.note [⟨.info, .coordinator,
    "request " ++ request.id ++ ": analyzer unavailable (" ++ reason.name ++
      "), using heuristic result"⟩]
  return scanned.degrade reason (fallbackCaveat reason detail)

/-- The outcome that the output of the analyzer gives. -/
def weigh (strict : Bool) (request : Request) (scanned : Outcome) (depth : Nat) (raw : RawOutput) :
    Act (Workspace ε) Outcome := do
  let reading := Transcript.translate strict raw depth
  Workspace.note reading.log
  let outcome ← Act.ofExcept reading.result
  match outcome.degraded with
  | some reason => fallBack request scanned reason (outcome.caveat.getD "")
  | none => return outcome

/-- Why the analyzer is not called when there is no time left. -/
def elapsedDetail (deadline : String) : String :=
  "deadline of " ++ deadline ++ "ms already elapsed"

/-- Calls the analyzer, unless there is no time left; then the deadline is spelled. -/
def consult (c : Coordinator ε) (request : Request) (token : Token) (scanned : Outcome) :
    Act (Workspace ε) Outcome := do
  if request.deadlineMs ≤ 0 then
    let deadline ← Act.ofExcept (spellInteger request.deadlineMs)
    fallBack request scanned .timeout (elapsedDetail deadline)
  else
    match ← (c.invoke (c.settings.call request) token).attempt with
    | .ok raw => weigh c.settings.strictOutput request scanned c.depth raw
    | .error (.spawn fault) => fallBack request scanned .spawnError fault.detail
    | .error f => throw f

/-- Tells a listener of what the scan found, if anybody listens and anything was found. -/
def tell (listener : Option (Listener ε)) (request : Request) (scanned : Outcome) :
    Act (Workspace ε) Unit :=
  match listener with
  | some listen => if scanned.success then pure () else listen request scanned
  | none => pure ()

/-- Scans the source of a request, tells of findings, and calls the analyzer if it is enabled. -/
def answer (c : Coordinator ε) (listener : Option (Listener ε)) (request : Request)
    (token : Token) : Act (Workspace ε) Outcome := do
  let scanned := c.settings.scanOutcome request.source
  tell listener request scanned
  if c.settings.enabled then consult c request token scanned else return scanned

/-- Answers a request.  Its own listener goes before that of the coordinator. -/
def analyze (c : Coordinator ε) (request : Request) (listener : Option (Listener ε)) :
    Act (Workspace ε) Outcome := do
  let token ← enter request
  Act.ensuring (c.answer (listener <|> c.listener) request token) (leave request)

end Coordinator

end AnalyzerBridge
