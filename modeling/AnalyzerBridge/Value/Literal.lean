/-
The text of a value.

`Value.literal` writes a value as a literal: texts quoted, lists and tables
bracketed, dates as constructor calls.  `Value.spelled` writes it for
insertion into a message or a command line: a text stands as it is and a date in
its ISO form, and everything else is its literal.  A value with an integer of
more than 4300 digits is not `isSpellable`.
-/
import AnalyzerBridge.Number.Integer
import AnalyzerBridge.Number.Shortest
import AnalyzerBridge.Text.Quoted
import AnalyzerBridge.Value.Basic

namespace AnalyzerBridge

namespace Date

/-- The three numbers of a date. -/
def numbers (d : Date) : List Nat :=
  [d.year, d.month, d.day]

end Date

namespace TimeOfDay

/-- The numbers of a time of day, without the zero seconds and microseconds at the end. -/
def numbers (t : TimeOfDay) : List Nat :=
  [t.hour, t.minute] ++
    (if t.micro != 0 then [t.second, t.micro] else if t.second != 0 then [t.second] else [])

end TimeOfDay

namespace Value

/-- Numbers separated by commas. -/
def commaSeparated (numbers : List Nat) : String :=
  ", ".intercalate (numbers.map toString)

/-- The literal of an offset from UTC: zero has a name, any other is a span of days and seconds with
non-negative seconds. -/
def offsetLiteral (minutes : Int) : String :=
  if minutes = 0 then "datetime.timezone.utc"
  else if minutes < 0 then
    "datetime.timezone(datetime.timedelta(days=-1, seconds=" ++ toString (86400 + minutes * 60) ++ "))"
  else "datetime.timezone(datetime.timedelta(seconds=" ++ toString (minutes * 60) ++ "))"

/-- The literal of a point in time. -/
def datetimeLiteral (dt : DateTime) : String :=
  "datetime.datetime(" ++ commaSeparated (dt.date.numbers ++ dt.time.numbers) ++
    ((dt.offset.map fun m => ", tzinfo=" ++ offsetLiteral m).getD "") ++ ")"

mutual

/-- A value as a literal. -/
def literal : Value → String
  | null => "None"
  | bool b => if b then "True" else "False"
  | int i => toString i
  | float x => x.text
  | text s => Text.quoted s
  | loose t => Text.quotedLoose t
  | date d => "datetime.date(" ++ commaSeparated d.numbers ++ ")"
  | time t => "datetime.time(" ++ commaSeparated t.numbers ++ ")"
  | datetime dt => datetimeLiteral dt
  | list items => "[" ++ ", ".intercalate (itemLiterals items) ++ "]"
  | table fields => "\x7b" ++ ", ".intercalate (fieldLiterals fields) ++ "\x7d"

/-- The literals of the items of a list. -/
def itemLiterals : List Value → List String
  | [] => []
  | v :: rest => literal v :: itemLiterals rest

/-- The literals of the fields of a table. -/
def fieldLiterals : List (String × Value) → List String
  | [] => []
  | (name, v) :: rest => (Text.quoted name ++ ": " ++ literal v) :: fieldLiterals rest

end

mutual

/-- No integer in the value has more digits than are ever read or written. -/
def isSpellable : Value → Bool
  | int i => i.natAbs < 10 ^ Number.digitLimit
  | list items => allSpellable items
  | table fields => fieldsSpellable fields
  | _ => true

/-- All items of a list are spellable. -/
def allSpellable : List Value → Bool
  | [] => true
  | v :: rest => isSpellable v && allSpellable rest

/-- All fields of a table are spellable. -/
def fieldsSpellable : List (String × Value) → Bool
  | [] => true
  | (_, v) :: rest => isSpellable v && fieldsSpellable rest

end

/-- A value as it is inserted into a message. -/
def spelled : Value → String
  | text s => s
  | loose t => t.replaced
  | date d => d.text
  | time t => t.text
  | datetime dt => dt.text " "
  | v => literal v

end Value

end AnalyzerBridge
