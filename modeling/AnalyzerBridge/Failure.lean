/-
What can go wrong, as causes.

A `Breach` is a contract that a caller broke; it is never turned into a
diagnostic.  A `SpawnFault` says why an analyzer could not be started.
`Failure` is the sum of everything that an operation can end with instead of a
result; `Failure.message` is its wording.
-/
import AnalyzerBridge.Number.Integer
import AnalyzerBridge.Schema.Problem
import AnalyzerBridge.Text.Utf8

namespace AnalyzerBridge

/-- A contract broken by a caller. -/
inductive Breach where
  | missingCommand
  | nonPositiveTimeout (given : Value)
  | badTimeoutSetting (source : String) (given : Value)
  | negativeTicks (given : Value)
  | nonPositiveTick (given : Value)
  | missingPayload (command : String)
  | payloadKind (command kind : String)
  | stated (reason : String) (details : Table)

/-- The reason that a breach gives. -/
def Breach.reason : Breach → String
  | .missingCommand => "missing analyzer command"
  | .nonPositiveTimeout _ => "invalid analyzer timeout ms"
  | .badTimeoutSetting _ _ => "invalid analyzer timeout ms"
  | .negativeTicks _ => "invalid timeout ticks"
  | .nonPositiveTick _ => "invalid timeout tick_ns"
  | .missingPayload _ => "missing command payload"
  | .payloadKind _ _ => "invalid command payload type"
  | .stated reason _ => if reason = "" then "never() marker reached" else reason

/-- The values that a breach reports, by name. -/
def Breach.details : Breach → Table
  | .missingCommand => []
  | .nonPositiveTimeout given => [("timeout_ms", given)]
  | .badTimeoutSetting source given => [("source", .text source), ("value", given)]
  | .negativeTicks given => [("ticks", given)]
  | .nonPositiveTick given => [("tick_ns", given)]
  | .missingPayload command => [("command", .text command)]
  | .payloadKind command kind => [("command", .text command), ("payload_type", .text kind)]
  | .stated _ details => details

/-- An analyzer that could not be started. -/
structure SpawnFault where
  command : String
  detail : String
  deriving DecidableEq

/-- The wording of a failed start. -/
def SpawnFault.message (f : SpawnFault) : String :=
  "Failed to start analyzer " ++ Text.quoted f.command ++ ": " ++ f.detail

/-- A number that a client is sent and that has a range. -/
inductive BoundedField where
  | line
  | character
  | version
  deriving DecidableEq

namespace BoundedField

/-- The name of a bounded number, after the record that holds it. -/
def name : BoundedField → String
  | .line => "Position.line"
  | .character => "Position.character"
  | .version => "PublishDiagnosticsParams.version"

/-- The smallest number that is sent: coordinates are not negative, and a version has 32 bits. -/
def least : BoundedField → Int
  | .line => 0
  | .character => 0
  | .version => -2147483648

/-- The largest number that is sent: two to the 31st, less one. -/
def most (_ : BoundedField) : Int :=
  2147483647

/-- A number that can be sent. -/
def admits (field : BoundedField) (i : Int) : Bool :=
  field.least ≤ i && i ≤ field.most

end BoundedField

/-- Everything that can stand in place of a result. -/
inductive Failure where
  | breach (b : Breach)
  | spawn (f : SpawnFault)
  | notAnInteger (literal : String)
  | integerTooLong (digits : Nat)
  | noNumber (kind : String)
  | notFinite (isNan : Bool)
  | quotientTooLarge
  | tooDeep
  | unending
  | undecodable (f : Text.Utf8.Fault)
  | unreadable
  | nullInPath
  | integerUnspellable
  | outOfRange (field : BoundedField) (given : Int)
  | unknownName (given family : String)
  | protocol (problems : Nat)
  | invalid (problems : List Schema.Problem)
  | crash (message : String)

/-- The longest part of a literal that a failed integer reading quotes. -/
def quotedLiteralLimit : Nat := 200

/-- How a null character in a path or an argument is reported. -/
def embeddedNull : String := "embedded null byte"

/-- How an integer with too many digits is reported. -/
def digitLimitExceeded : String :=
  "Exceeds the limit (" ++ toString Number.digitLimit ++ " digits) for integer string conversion"

/-- The advice that comes with it. -/
def digitLimitAdvice : String :=
  "use sys.set_int_max_str_digits() to increase the limit"

/-- The bytes that are no text, as an error reports them. -/
def undecodableSpan (f : Text.Utf8.Fault) : String :=
  if f.width ≤ 1 then
    "byte 0x" ++ Text.hexPadded 2 f.byte.toNat ++ " in position " ++ toString f.position
  else
    "bytes in position " ++ toString f.position ++ "-" ++ toString (f.position + f.width - 1)

/-- The wording of a failure. -/
def Failure.message : Failure → String
  | .breach b => b.reason
  | .spawn f => f.message
  | .notAnInteger literal =>
    "invalid literal for int() with base 10: " ++
      String.ofList (literal.toList.take quotedLiteralLimit)
  | .integerTooLong digits =>
    digitLimitExceeded ++ ": value has " ++ toString digits ++ " digits; " ++ digitLimitAdvice
  | .noNumber kind =>
    "int() argument must be a string, a bytes-like object or a real number, not '" ++ kind ++ "'"
  | .notFinite isNan =>
    if isNan then "cannot convert float NaN to integer"
    else "cannot convert float infinity to integer"
  | .quotientTooLarge => "integer division result too large for a float"
  | .tooDeep => "nested too deeply"
  | .unending => "waiting did not end"
  | .undecodable f =>
    "'utf-8' codec can't decode " ++ undecodableSpan f ++ ": " ++ f.reason.message
  | .unreadable => "[Errno 5] Input/output error"
  | .nullInPath => embeddedNull
  | .integerUnspellable =>
    digitLimitExceeded ++ "; " ++ digitLimitAdvice
  | .outOfRange field given =>
    field.name ++ " should be in range [" ++ toString field.least ++ ":" ++ toString field.most ++
      "], but was " ++ toString given ++ "."
  | .unknownName given family => Text.quoted given ++ " is not a valid " ++ family
  | .protocol problems =>
    "analyzer JSON is not a parse payload (" ++ toString problems ++ " errors)"
  | .invalid problems => Schema.report "value" problems
  | .crash message => message

/-- The digits of an integer, with its sign; a number with too many of them is refused. -/
def spellInteger (i : Int) : Except Failure String :=
  if (Value.int i).isSpellable then .ok (toString i) else .error .integerUnspellable

/-- A number for a client, refused outside its range.  The refusal spells the number, if it can. -/
def BoundedField.check (field : BoundedField) (i : Int) : Except Failure Int :=
  if field.admits i then .ok i
  else if (Value.int i).isSpellable then .error (.outOfRange field i)
  else .error .integerUnspellable

/-- The failure that an integer fault of a given text is. -/
def Failure.ofInteger (literal : String) : Number.IntegerFault → Failure
  | .malformed => .notAnInteger literal
  | .tooLong digits => .integerTooLong digits

/-- A value as an integer: numbers are cut toward zero, truth values count as 0 and 1, and texts are
read. -/
def Value.toInteger : Value → Except Failure Int
  | .int i => .ok i
  | .bool b => .ok (if b then 1 else 0)
  | .float x =>
    match x.truncate? with
    | some i => .ok i
    | none => .error (.notFinite (x == .nan))
  | .text s => (Number.readInteger s.toList).mapError (Failure.ofInteger (Text.quoted s))
  | .loose t => .error (.notAnInteger (Text.quotedLoose t))
  | v => .error (.noNumber v.kind)

end AnalyzerBridge
