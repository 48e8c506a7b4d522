/-
Outcomes of an analysis.

A `Descriptor` is one finding: a message and, as far as known, where it is.  A
`RawOutput` is what one analyzer run left behind.  An `Outcome` is the answer to
a request: its findings, who found them, and whether it is a fallback.

Design notes: `Outcome.ofFindings` is the only constructor that the scan and the
transcript reader need; success is then the absence of findings.
-/
import AnalyzerBridge.Text.Loose

namespace AnalyzerBridge

/-- One finding.  Offset and length count characters of the text; line and column count from zero. -/
structure Descriptor where
  message : LooseText
  offset : Option Int := none
  length : Option Int := none
  line : Option Int := none
  column : Option Int := none
  deriving DecidableEq, Inhabited

/-- What one run of the analyzer left behind. -/
structure RawOutput where
  stdout : List UInt8 := []
  stderr : List UInt8 := []
  exitCode : Option Int := none
  timedOut : Bool := false
  cancelled : Bool := false
  deriving DecidableEq, Inhabited

/-- Who found what an outcome lists. -/
inductive Source where
  | analyzer
  | heuristic
  deriving DecidableEq, Inhabited

/-- The name of a source. -/
def Source.name : Source → String
  | .analyzer => "analyzer"
  | .heuristic => "heuristic"

/-- The source of a name. -/
def Source.ofName? (name : String) : Option Source :=
  [Source.analyzer, .heuristic].find? fun s => s.name == name

/-- Why an outcome is a fallback. -/
inductive Reason where
  | timeout
  | spawnError
  | cancelled
  | malformedOutput
  deriving DecidableEq, Inhabited

/-- The name of a reason. -/
def Reason.name : Reason → String
  | .timeout => "timeout"
  | .spawnError => "spawn_error"
  | .cancelled => "cancelled"
  | .malformedOutput => "malformed_output"

/-- The reason of a name. -/
def Reason.ofName? (name : String) : Option Reason :=
  [Reason.timeout, .spawnError, .cancelled, .malformedOutput].find? fun r => r.name == name

/-- The answer to a request. -/
structure Outcome where
  success : Bool
  errors : List Descriptor := []
  source : Source := .analyzer
  degraded : Option Reason := none
  caveat : Option String := none
  deriving DecidableEq, Inhabited

namespace Outcome

/-- The outcome with the given findings, a success if there are none. -/
def ofFindings (source : Source) (findings : List Descriptor) : Outcome :=
  { success := findings.isEmpty, errors := findings, source := source }

/-- The outcome marked as a fallback. -/
def degrade (o : Outcome) (reason : Reason) (caveat : String) : Outcome :=
  { o with degraded := some reason, caveat := some caveat }

end Outcome

end AnalyzerBridge
