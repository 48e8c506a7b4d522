/-
Reading what an analyzer run left behind.

`parseStderr` reads the error stream line by line: a line with
`line:column: message` in it is positioned, any other line that is not blank is
a message of its own, and an empty stream is one synthesised finding.
`payloadOf` reads the output stream as a JSON payload.  `translate` applies the
policy: the flags first, then the exit code, then the payload.

Design notes: a number with too many digits, or a nesting that is too deep, is a
failure and no finding; it ends the reading.  `translate` returns its log beside
the result, so that the records of a failed reading are kept.  How deep a payload
may nest depends on who calls the reader and is an argument.
-/
import AnalyzerBridge.Failure
import AnalyzerBridge.Json.Reader
import AnalyzerBridge.Log
import AnalyzerBridge.Schema.Record
import AnalyzerBridge.Text.Line

namespace AnalyzerBridge.Transcript

/-- The texts of the findings and caveats that the policy adds. -/
def timeoutMessage : String := "Analyzer timed out before reporting a result"

/-- The finding of a cancelled run. -/
def cancelledMessage : String := "Analysis cancelled by a newer request"

/-- The finding of a successful run with unreadable output, in strict mode. -/
def malformedMessage : String :=
  "Analyzer exited successfully but its output could not be decoded"

/-- The caveat of a successful run with unreadable output. -/
def malformedCaveat : String :=
  "analyzer output was not a structured payload; treated as success"

/-- The finding of a payload that reports failure and nothing else. -/
def silentFailureMessage : String := "Analyzer reported failure without details"

/-! ### The error stream -/

/-- A position at the front of a text: digits, a colon, digits, a colon, and at least one more
character, which starts the message. -/
def positionAt? (text : List Char) : Option (List Char × List Char × List Char) :=
  let line := text.takeWhile Text.isDigit
  match line.isEmpty, text.dropWhile Text.isDigit with
  | false, ':' :: rest =>
    let column := rest.takeWhile Text.isDigit
    match column.isEmpty, rest.dropWhile Text.isDigit with
    | false, ':' :: c :: message => some (line, column, c :: message)
    | _, _ => none
  | _, _ => none

/-- The leftmost position in a text. -/
def findPosition? : List Char → Option (List Char × List Char × List Char)
  | [] => none
  | c :: rest =>
    match positionAt? (c :: rest) with
    | some found => some found
    | none => findPosition? rest

/-- A number of the stream, which counts from one, counted from zero; zero stays zero. -/
def zeroBased (digits : List Char) : Except Failure Int :=
  match Number.readInteger digits with
  | .ok i => .ok (max 0 (i - 1))
  | .error fault => .error (Failure.ofInteger (Text.quoted (String.ofList digits)) fault)

/-- The finding on a stripped line that is not empty. -/
def lineFinding (line : List Char) : Except Failure Descriptor :=
  match findPosition? line with
  | none => .ok { message := line.map .char }
  | some (lineDigits, columnDigits, message) =>
    match zeroBased lineDigits with
    | .error f => .error f
    | .ok l =>
      match zeroBased columnDigits with
      | .error f => .error f
      | .ok c =>
        .ok { message := (Text.strip message).map .char, line := some l, column := some c }

/-- The stripped lines of a text that are not empty. -/
def contentLines (text : List Char) : List (List Char) :=
  ((Text.bareLines text).map Text.strip).filter fun line => !line.isEmpty

/-- What the finding for an empty error stream says, from the digits of the exit code. -/
def emptyStreamMessage (exitCode : Option String) : String :=
  "Parse error" ++ (exitCode.map fun code => " (exit " ++ code ++ ")").getD ""

/-- The finding that stands for an empty error stream; it spells the exit code. -/
def emptyStreamFinding (exitCode : Option Int) : Except Failure Descriptor :=
  (exitCode.mapM spellInteger).map fun code =>
    { message := LooseText.ofString (emptyStreamMessage code) }

/-- The findings of an error stream, in its order; never empty. -/
def parseStderr (stderr : List UInt8) (exitCode : Option Int) : Except Failure (List Descriptor) :=
  match contentLines (Text.Utf8.decodeLossy stderr) with
  | [] => (emptyStreamFinding exitCode).map fun d => [d]
  | found => found.mapM lineFinding

/-! ### The output stream -/

/-- The payload on an output stream; nothing when the stream is no JSON. -/
def payloadOf (stdout : List UInt8) (depth : Nat := Json.runDepth) :
    Except Failure (Option Schema.Payload) :=
  let text := Text.strip (Text.Utf8.decodeLossy stdout)
  if text.isEmpty then .ok none
  else
    match Json.parse (some Number.digitLimit) text depth with
    | .error .malformed => .ok none
    | .error .tooDeep => .error .tooDeep
    | .error (.integerTooLong digits) => .error (.integerTooLong digits)
    | .ok v =>
      match Schema.readPayload v with
      | .ok p => .ok (some p)
      | .error problems => .error (.protocol problems.length)

/-- The outcome that a payload reports: its findings decide, and a failure without any gets one. -/
def outcomeOf (p : Schema.Payload) : Outcome :=
  Outcome.ofFindings .analyzer <|
    if !p.success && p.errors.isEmpty then
      [{ message := LooseText.ofString silentFailureMessage }]
    else p.errors

/-! ### The policy -/

/-- A result with the log records of reaching it. -/
structure Reading (α : Type) where
  log : List LogRecord
  result : Except Failure α

/-- The outcome of a run that did not complete. -/
def incomplete (message : String) (reason : Reason) (caveat : String) : Outcome :=
  { success := false
    errors := [{ message := LooseText.ofString message }]
    degraded := some reason
    caveat := some caveat }

/-- The outcome of a run with exit code zero whose output is no payload. -/
def unreadable (strict : Bool) : Outcome :=
  if strict then
    incomplete malformedMessage .malformedOutput "analyzer output was not a structured payload"
  else { success := true, caveat := some malformedCaveat }

/-- A debug record of this module. -/
def debugRecord (message : String) : LogRecord :=
  ⟨.debug, .transcript, message⟩

/-- The outcome of a run with exit code zero. -/
def translateSuccess (strict : Bool) (stdout : List UInt8) (depth : Nat) : Reading Outcome :=
  let undecodable := debugRecord
    ("analyzer exit 0 with undecodable stdout (" ++ toString stdout.length ++ " bytes)")
  match payloadOf stdout depth with
  | .ok (some p) => ⟨[], .ok (outcomeOf p)⟩
  | .ok none => ⟨[undecodable], .ok (unreadable strict)⟩
  | .error (.protocol n) =>
    ⟨[debugRecord (Failure.protocol n).message, undecodable], .ok (unreadable strict)⟩
  | .error f => ⟨[], .error f⟩

/-- The outcome of a run. -/
def translate (strict : Bool) (raw : RawOutput) (depth : Nat := Json.runDepth) :
    Reading Outcome :=
  if raw.timedOut then
    ⟨[], .ok (incomplete timeoutMessage .timeout
      "analyzer exceeded its deadline and was terminated")⟩
  else if raw.cancelled then
    ⟨[], .ok (incomplete cancelledMessage .cancelled "superseded by a newer request")⟩
  else if raw.exitCode = some 0 then translateSuccess strict raw.stdout depth
  else ⟨[], (parseStderr raw.stderr raw.exitCode).map (Outcome.ofFindings .analyzer)⟩

end AnalyzerBridge.Transcript
