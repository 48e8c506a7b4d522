/-
Values of the data formats.

Analyzer output and command payloads are JSON, the settings file is TOML, and
overrides may come from either; `Value` is the sum of what the two can express.
A table keeps its keys in the order in which they were first written, and each
key once.

Design notes: a string that holds an unpaired surrogate is a case of its own
(`loose`), so that all other texts are plain strings.
-/
import AnalyzerBridge.Number.Binary64
import AnalyzerBridge.Text.Loose
import AnalyzerBridge.Value.Calendar

namespace AnalyzerBridge

/-- A value of JSON or TOML. -/
inductive Value where
  | null
  | bool (b : Bool)
  | int (i : Int)
  | float (x : Binary64)
  | text (s : String)
  | loose (t : LooseText)
  | date (d : Date)
  | time (t : TimeOfDay)
  | datetime (dt : DateTime)
  | list (items : List Value)
  | table (fields : List (String × Value))
  deriving Inhabited

/-- Named values, each name once, in order of first appearance. -/
abbrev Table := List (String × Value)

namespace Table

/-- The value of a name. -/
def get? (t : Table) (name : String) : Option Value :=
  t.lookup name

/-- The table has the name. -/
def has (t : Table) (name : String) : Bool :=
  t.any fun field => field.1 == name

/-- Sets the value of a name in its place, or appends it. -/
def put (t : Table) (name : String) (v : Value) : Table :=
  if t.has name then t.map fun field => if field.1 == name then (name, v) else field
  else t ++ [(name, v)]

/-- The table with the given fields put in order, so that the last value of a name stands. -/
def ofFields (fields : List (String × Value)) : Table :=
  fields.foldl (fun t field => t.put field.1 field.2) []

end Table

namespace Value

/-- The name of a value's kind, as problem reports show it. -/
def kind : Value → String
  | null => "NoneType"
  | bool _ => "bool"
  | int _ => "int"
  | float _ => "float"
  | text _ => "str"
  | loose _ => "str"
  | date _ => "date"
  | time _ => "time"
  | datetime _ => "datetime"
  | list _ => "list"
  | table _ => "dict"

/-- The absent value. -/
def isNull : Value → Bool
  | null => true
  | _ => false

/-- A value that counts as given: neither absent, nor false, nor zero, nor empty. -/
def isGiven : Value → Bool
  | null => false
  | bool b => b
  | int i => i != 0
  | float x => !x.isZero
  | text s => s != ""
  | loose t => !t.isEmpty
  | list items => !items.isEmpty
  | table fields => !fields.isEmpty
  | date _ | time _ | datetime _ => true

/-- Absent or the empty text. -/
def isNullOrEmptyText : Value → Bool
  | null => true
  | text s => s == ""
  | loose t => t.isEmpty
  | _ => false

/-- A loose text as a value: a plain text if it is one. -/
def ofLoose (t : LooseText) : Value :=
  match t.toString? with
  | some s => text s
  | none => loose t

/-- An optional integer, absent as the absent value. -/
def ofInt? (i : Option Int) : Value :=
  (i.map int).getD null

/-- An optional text, absent as the absent value. -/
def ofText? (s : Option String) : Value :=
  (s.map text).getD null

/-- An optional loose text, absent as the absent value. -/
def ofLoose? (t : Option LooseText) : Value :=
  (t.map ofLoose).getD null

end Value

end AnalyzerBridge
