/-
Reading TOML documents.

`parse` reads a text as a table.  A document is a sequence of lines, each empty,
an assignment `key = value`, or a header of a table or of an array of tables,
and each may end in a comment.

Design notes: whether the stack has room for one more value depends on what the
value stands in, on the value itself and on who calls the reader, so it is an
argument of `parse`, a `Room`.  The readers of values, arrays and inline tables
call each other on ever shorter rests; they are recursive on `fuel`, and `parse`
gives them more than the text has characters.
-/
import AnalyzerBridge.Text.Line
import AnalyzerBridge.Toml.Lexeme
import AnalyzerBridge.Toml.Namespace

namespace AnalyzerBridge.Toml

/-- Reads a truth value, a moment or a number. -/
def readAtom : List Char → Read Value
  | 't' :: 'r' :: 'u' :: 'e' :: rest => .ok (.bool true, rest)
  | 'f' :: 'a' :: 'l' :: 's' :: 'e' :: rest => .ok (.bool false, rest)
  | text =>
    match readMoment? text with
    | some r => r
    | none =>
      match readBased? text with
      | some (i, rest) => .ok (.int i, rest)
      | none =>
        match readDecimal? text with
        | some r => r
        | none =>
          match readNamed? text with
          | some found => .ok found
          | none => .error .malformed

/-- Adds an assignment to an inline table, none of whose closed namespaces it may touch. -/
def assignInline (closed : List Path) (path : Path) (v : Value) (t : Table) : Option Table :=
  if closed.any fun p => p.isPrefixOf path then none
  else
    match path.getLast? with
    | some name => updateNest false path.dropLast (insertNew name v) t
    | none => none

/-- What a value can stand in besides the document. -/
inductive Enclosure where
  | array
  | inlineTable
  deriving DecidableEq

/-- Whether the stack has room for the value that a text starts with, inside of the enclosures around it,
the innermost first. -/
abbrev Room := List Enclosure → List Char → Bool

section

variable (room : Room)

mutual

/-- Reads a value, if there is room for it. -/
def readValue : (fuel : Nat) → (around : List Enclosure) → List Char → Read Value
  | 0, _, _ => .error .malformed
  | fuel + 1, around, text =>
    if !room around text then .error .tooDeep
    else
      match readString? text with
      | some r => r.map fun p => (.text (String.ofList p.1), p.2)
      | none =>
        match text with
        | [] => .error .malformed
        | c :: rest =>
          if c == '[' then readArray fuel (.array :: around) [] rest
          else if c.toNat == 0x7B then
            match skipBlanks rest with
            | [] => .error .malformed
            | c :: rest =>
              if c.toNat == 0x7D then .ok (.table [], rest)
              else readInline fuel (.inlineTable :: around) [] [] (c :: rest)
          else readAtom text

/-- Reads the items of an array up to its closing bracket; each is followed by a comma or the
bracket. -/
def readArray :
    (fuel : Nat) → (around : List Enclosure) → (reversed : List Value) → List Char → Read Value
  | 0, _, _, _ => .error .malformed
  | fuel + 1, around, reversed, text =>
    match skipSpace false text with
    | .error fault => .error fault
    | .ok (']' :: rest) => .ok (.list reversed.reverse, rest)
    | .ok text =>
      match readValue fuel around text with
      | .error fault => .error fault
      | .ok (v, rest) =>
        match skipSpace false rest with
        | .error fault => .error fault
        | .ok (']' :: rest) => .ok (.list (v :: reversed).reverse, rest)
        | .ok (',' :: rest) => readArray fuel around (v :: reversed) rest
        | .ok _ => .error .malformed

/-- Reads the assignments of an inline table up to its closing brace. -/
def readInline :
    (fuel : Nat) → (around : List Enclosure) → (closed : List Path) → Table → List Char → Read Value
  | 0, _, _, _, _ => .error .malformed
  | fuel + 1, around, closed, t, text =>
    match readKey text with
    | .error fault => .error fault
    | .ok (path, '=' :: rest) =>
      match readValue fuel around (skipBlanks rest) with
      | .error fault => .error fault
      | .ok (v, rest) =>
        match assignInline closed path v t with
        | none => .error .malformed
        | some t =>
          match skipBlanks rest with
          | ',' :: rest =>
            readInline fuel around (if isNest v then path :: closed else closed) t (skipBlanks rest)
          | c :: rest => if c.toNat == 0x7D then .ok (.table t, rest) else .error .malformed
          | [] => .error .malformed
    | .ok _ => .error .malformed

end

end

/-- A document as far as it has been read: its table, the marks, and the path of the last header. -/
structure Draft where
  table : Table := []
  marks : Marks := {}
  header : Path := []

namespace Draft

/-- The paths from the header to the containers of a dotted key. -/
def containers (d : Draft) (key : Path) : List Path :=
  (List.range (key.length - 1)).map fun i => d.header ++ key.take (i + 1)

/-- Adds an assignment under the last header. -/
def assign (d : Draft) (key : Path) (v : Value) : Option Draft :=
  let parent := d.header ++ key.dropLast
  if (d.containers key).any d.marks.isOpened || d.marks.isClosed parent then none
  else
    match key.getLast? with
    | none => none
    | some name =>
      (updateNest true parent (insertNew name v) d.table).map fun table =>
        let marks := (d.containers key).foldl Marks.defer d.marks
        { d with
          table := table
          marks := if isNest v then marks.closePath (d.header ++ key) else marks }

/-- Opens the table at a path. -/
def openTable (d : Draft) (path : Path) : Option Draft :=
  if d.marks.isOpened path || d.marks.isClosed path then none
  else
    (updateNest true path some d.table).map fun table =>
      { table := table, marks := d.marks.openPath path, header := path }

/-- Appends a table to the array of tables at a path and opens it. -/
def openItem (d : Draft) (path : Path) : Option Draft :=
  if d.marks.isClosed path then none
  else
    match path.getLast? with
    | none => none
    | some name =>
      (updateNest true path.dropLast (appendTable name) d.table).map fun table =>
        { table := table, marks := (d.marks.release path).openPath path, header := path }

end Draft

/-- A draft that was refused is malformed. -/
def accepted (draft : Option Draft) (rest : List Char) : Read Draft :=
  match draft with
  | some d => .ok (d, rest)
  | none => .error .malformed

/-- Reads a header after its first bracket. -/
def readHeader (d : Draft) (text : List Char) : Read Draft :=
  let d := { d with marks := d.marks.settle }
  match text with
  | '[' :: rest =>
    match readKey (skipBlanks rest) with
    | .ok (path, ']' :: ']' :: rest) => accepted (d.openItem path) rest
    | .ok _ => .error .malformed
    | .error fault => .error fault
  | _ =>
    match readKey (skipBlanks text) with
    | .ok (path, ']' :: rest) => accepted (d.openTable path) rest
    | .ok _ => .error .malformed
    | .error fault => .error fault

section

variable (room : Room)

/-- Reads an assignment. -/
def readAssignment (d : Draft) (text : List Char) : Read Draft :=
  match readKey text with
  | .ok (key, '=' :: rest) =>
    match readValue room (2 * text.length + 2) [] (skipBlanks rest) with
    | .ok (v, rest) => accepted (d.assign key v) rest
    | .error fault => .error fault
  | .ok _ => .error .malformed
  | .error fault => .error fault

/-- Reads the statement at the front of a line, if there is one. -/
def readStatement (d : Draft) (text : List Char) : Read Draft :=
  match text with
  | [] => .ok (d, text)
  | c :: rest =>
    if c == '\n' || c == '#' then .ok (d, text)
    else if c == '[' then readHeader d rest
    else readAssignment room d text

/-- Reads line after line, `fuel` bounding their number. -/
def readLines : (fuel : Nat) → Draft → List Char → Except Fault Draft
  | 0, _, _ => .error .malformed
  | fuel + 1, d, text =>
    match readStatement room d (skipBlanks text) with
    | .error fault => .error fault
    | .ok (d, rest) =>
      match skipComment (skipBlanks rest) with
      | .error fault => .error fault
      | .ok [] => .ok d
      | .ok ('\n' :: rest) => readLines fuel d rest
      | .ok _ => .error .malformed

end

/-- The frames of the stack that an enclosure takes: one for the value that it is, one for itself, and in
an inline table one for the assignment. -/
def Enclosure.frames : Enclosure → Nat
  | .array => 2
  | .inlineTable => 3

/-- Room for a number of frames. -/
def Room.ofFrames (n : Nat) : Room := fun around _ =>
  around.foldr (fun e count => e.frames + count) 0 ≤ n

/-- The room that a reader finds when nobody says how much there is. -/
def runRoom : Room := .ofFrames 990

/-- Reads a document, its values as far as there is room for them. -/
def parse (text : List Char) (room : Room := runRoom) : Except Fault Table :=
  let text := Text.unifyNewlines text
  (readLines room (text.length + 1) {} text).map Draft.table

end AnalyzerBridge.Toml
