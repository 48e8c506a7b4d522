/-
Problems that a schema finds in a value.

A problem names the place in the value, the complaint and the offending part.
`Problem.report` writes a list of problems as one text, a heading and two lines
for each.
-/
import AnalyzerBridge.Value.Literal

namespace AnalyzerBridge.Schema

/-- One step from a value to a part of it. -/
inductive Step where
  | field (name : String)
  | index (n : Nat)
  deriving DecidableEq

/-- What is wrong with a part of a value. -/
inductive Complaint where
  | missing
  | notText
  | notUnicode
  | notBool
  | unreadableBool
  | notInteger
  | unreadableInteger
  | integerTooLarge
  | fractional
  | notFinite
  | notList
  | notRecord (record : String)
  deriving DecidableEq

/-- The code of a complaint. -/
def Complaint.code : Complaint → String
  | .missing => "missing"
  | .notText => "string_type"
  | .notUnicode => "string_unicode"
  | .notBool => "bool_type"
  | .unreadableBool => "bool_parsing"
  | .notInteger => "int_type"
  | .unreadableInteger => "int_parsing"
  | .integerTooLarge => "int_parsing_size"
  | .fractional => "int_from_float"
  | .notFinite => "finite_number"
  | .notList => "list_type"
  | .notRecord _ => "model_type"

/-- The wording of a complaint. -/
def Complaint.message : Complaint → String
  | .missing => "Field required"
  | .notText => "Input should be a valid string"
  | .notUnicode => "Input should be a valid string, unable to parse raw data as a unicode string"
  | .notBool => "Input should be a valid boolean"
  | .unreadableBool => "Input should be a valid boolean, unable to interpret input"
  | .notInteger => "Input should be a valid integer"
  | .unreadableInteger => "Input should be a valid integer, unable to parse string as an integer"
  | .integerTooLarge => "Unable to parse input string as an integer, exceeded maximum size"
  | .fractional => "Input should be a valid integer, got a number with a fractional part"
  | .notFinite => "Input should be a finite number"
  | .notList => "Input should be a valid list"
  | .notRecord record => "Input should be a valid dictionary or instance of " ++ record

/-- A complaint about the part of a value at a path. -/
structure Problem where
  path : List Step
  complaint : Complaint
  input : Value

/-- The problem seen from one step further out. -/
def Problem.within (step : Step) (p : Problem) : Problem :=
  { p with path := step :: p.path }

/-- A step as the report shows it. -/
def Step.text : Step → String
  | .field name => name
  | .index n => toString n

/-- The longest literal, in bytes, that a report shows in full. -/
def reportedLiteralBytes : Nat := 50

/-- The longest front part of a text with at most `n` UTF-8 bytes. -/
def frontBytes : Nat → List Char → List Char
  | _, [] => []
  | n, c :: rest => if c.utf8Size ≤ n then c :: frontBytes (n - c.utf8Size) rest else []

/-- A literal cut in the middle when it is long: its first 25 and its last 24 bytes remain, less the
characters that these cuts would split. -/
def cutLiteral (literal : String) : String :=
  if literal.utf8ByteSize ≤ reportedLiteralBytes then literal
  else
    let chars := literal.toList
    String.ofList (frontBytes 25 chars ++ ['.', '.', '.'] ++ (frontBytes 24 chars.reverse).reverse)

/-- The lines of the report on one problem. -/
def Problem.lines (p : Problem) : List String :=
  let place := if p.path.isEmpty then [] else [".".intercalate (p.path.map Step.text)]
  place ++ ["  " ++ p.complaint.message ++ " [type=" ++ p.complaint.code ++ ", input_value=" ++
    cutLiteral p.input.literal ++ ", input_type=" ++ p.input.kind ++ "]"]

/-- The report on the problems of a record. -/
def report (record : String) (problems : List Problem) : String :=
  let noun := if problems.length = 1 then " validation error for " else " validation errors for "
  "\n".intercalate
    ((toString problems.length ++ noun ++ record) :: problems.flatMap Problem.lines)

end AnalyzerBridge.Schema
