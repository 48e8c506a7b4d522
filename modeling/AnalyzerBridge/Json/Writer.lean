/-
Writing JSON.

`compact` writes a value on one line; `pretty` writes tables and lists one entry
a line, two more spaces for each level, the fields sorted by name.  Every
character outside printable ASCII is escaped as its UTF-16 code units.
-/
import AnalyzerBridge.Number.Shortest
import AnalyzerBridge.Text.Quoted
import AnalyzerBridge.Value.Literal

namespace AnalyzerBridge.Json

/-- The UTF-16 code units of a glyph. -/
def unitsOf : Glyph → List Nat
  | .lone unit => [unit]
  | .char c =>
    let n := c.toNat
    if n < 0x10000 then [n] else [0xD800 + (n - 0x10000) / 0x400, 0xDC00 + (n - 0x10000) % 0x400]

/-- The escape of a code unit. -/
def unitEscape (unit : Nat) : List Char :=
  '\\' :: 'u' :: (Text.hexPadded 4 unit).toList

/-- A glyph inside a string. -/
def glyphText (g : Glyph) : List Char :=
  match g with
  | .char c =>
    if c == '"' || c == '\\' then ['\\', c]
    else if c == '\n' then ['\\', 'n']
    else if c == '\r' then ['\\', 'r']
    else if c == '\t' then ['\\', 't']
    else if c.toNat == 8 then ['\\', 'b']
    else if c.toNat == 12 then ['\\', 'f']
    else if 32 ≤ c.toNat && c.toNat < 127 then [c]
    else (unitsOf g).flatMap unitEscape
  | .lone _ => (unitsOf g).flatMap unitEscape

/-- A string with its quotes. -/
def stringText (t : LooseText) : String :=
  String.ofList ('"' :: t.flatMap glyphText ++ ['"'])

/-- The text of a floating-point number. -/
def floatText : Binary64 → String
  | .nan => "NaN"
  | .infinite negative => if negative then "-Infinity" else "Infinity"
  | x => x.text

/-- A value that is no list or table; a date or time is its ISO text. -/
def atomText : Value → String
  | .null => "null"
  | .bool b => if b then "true" else "false"
  | .int i => toString i
  | .float x => floatText x
  | .text s => stringText (LooseText.ofString s)
  | .loose t => stringText t
  | v => stringText (LooseText.ofString v.spelled)

mutual

/-- A value on one line. -/
def compact : Value → String
  | .list items => "[" ++ ", ".intercalate (compactItems items) ++ "]"
  | .table fields => "\x7b" ++ ", ".intercalate (compactFields fields) ++ "\x7d"
  | v => atomText v

/-- The items of a list, each on one line. -/
def compactItems : List Value → List String
  | [] => []
  | v :: rest => compact v :: compactItems rest

/-- The fields of a table, each on one line. -/
def compactFields : List (String × Value) → List String
  | [] => []
  | (name, v) :: rest =>
    (stringText (LooseText.ofString name) ++ ": " ++ compact v) :: compactFields rest

end

/-- The indentation of a level. -/
def indentation (level : Nat) : String :=
  String.ofList (List.replicate (2 * level) ' ')

/-- Entries between brackets, one a line. -/
def block (level : Nat) (opening closing : String) (entries : List String) : String :=
  if entries.isEmpty then opening ++ closing
  else
    opening ++ "\n" ++ ",\n".intercalate (entries.map fun e => indentation (level + 1) ++ e) ++ "\n" ++
      indentation level ++ closing

/-- Fields sorted by name. -/
def sortFields (fields : List (String × String)) : List (String × String) :=
  fields.mergeSort fun a b => a.1 ≤ b.1

mutual

/-- A value over several lines, at a level of indentation. -/
def prettyAt (level : Nat) : Value → String
  | .list items => block level "[" "]" (prettyItems (level + 1) items)
  | .table fields =>
    block level "\x7b" "\x7d" ((sortFields (prettyFields (level + 1) fields)).map fun p =>
      stringText (LooseText.ofString p.1) ++ ": " ++ p.2)
  | v => atomText v

/-- The items of a list, each over several lines. -/
def prettyItems (level : Nat) : List Value → List String
  | [] => []
  | v :: rest => prettyAt level v :: prettyItems level rest

/-- The fields of a table, each over several lines. -/
def prettyFields (level : Nat) : List (String × Value) → List (String × String)
  | [] => []
  | (name, v) :: rest => (name, prettyAt level v) :: prettyFields level rest

end

/-- A value over several lines, its fields sorted by name. -/
def pretty (v : Value) : String :=
  prettyAt 0 v

end AnalyzerBridge.Json
