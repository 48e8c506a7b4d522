/-
Positions and ranges in a document.

`positionAt` converts an offset into line and column, counting line feeds only;
`descriptorRange` places a finding.  Back from a client's cursor to an offset it
is the document that converts, by some `OffsetAt`.

Design notes: a position that leaves the range of the protocol is refused, line
before column and start before end.  The conversion of the document is nobody's
here, so whatever reads a cursor has it as an argument; `cursorOffset` is the one
that runs use.
-/
import AnalyzerBridge.Failure
import AnalyzerBridge.Outcome
import AnalyzerBridge.Text.Line

namespace AnalyzerBridge

/-- A place in a document. -/
structure Position where
  line : Int
  character : Int
  deriving DecidableEq, Inhabited

/-- A stretch of a document. -/
structure Range where
  start : Position
  stop : Position
  deriving DecidableEq, Inhabited

namespace Position

/-- A position of the protocol. -/
def make (line character : Int) : Except Failure Position := do
  let line ← BoundedField.line.check line
  let character ← BoundedField.character.check character
  return ⟨line, character⟩

/-- A range of the protocol. -/
def makeRange (startLine startCharacter stopLine stopCharacter : Int) : Except Failure Range := do
  return ⟨← make startLine startCharacter, ← make stopLine stopCharacter⟩

end Position

/-- An offset moved to the nearest one in a text of the given size. -/
def clampOffset (size : Nat) (offset : Int) : Nat :=
  (max 0 (min offset size)).toNat

/-- The number of line feeds in a text. -/
def newlineCount (text : List Char) : Nat :=
  text.countP (· == '\n')

/-- The number of characters after the last line feed of a text. -/
def columnCount (text : List Char) : Nat :=
  (text.reverse.takeWhile (· != '\n')).length

/-- The line and column of an offset, which is moved into the text. -/
def positionAt (text : List Char) (offset : Int) : Nat × Nat :=
  let before := text.take (clampOffset text.length offset)
  (newlineCount before, columnCount before)

/-- The width that a finding without position is shown with. -/
def unpositionedWidth : Int := 100

/-- The length that a finding covers; none and zero count as one. -/
def Descriptor.extent (d : Descriptor) : Int :=
  match d.length with
  | none => 1
  | some n => if n = 0 then 1 else n

/-- The range of a finding in a document: by its offset, else by line and column, else the start. -/
def descriptorRange (text : List Char) (d : Descriptor) : Except Failure Range :=
  match d.offset, d.line with
  | some offset, _ =>
    let start := positionAt text offset
    let stop := positionAt text (offset + d.extent)
    Position.makeRange start.1 start.2 stop.1 stop.2
  | none, some line =>
    let column := d.column.getD 0
    Position.makeRange line column line (column + d.extent)
  | none, none => Position.makeRange 0 0 0 unpositionedWidth

/-! ### Cursors -/

/-- How a document converts the line and the column of a cursor into an offset of its text. -/
abbrev OffsetAt := (text : List Char) → (line column : Nat) → Nat

/-- The number of UTF-16 code units of a character. -/
def unitWidth (c : Char) : Nat :=
  if c.toNat < 0x10000 then 1 else 2

/-- The number of UTF-16 code units of a text. -/
def unitLength (text : List Char) : Nat :=
  text.foldr (fun c units => unitWidth c + units) 0

/-- The number of characters from the front that hold at least `units` code units, or all. -/
def charactersFor : (units : Nat) → List Char → Nat
  | 0, _ => 0
  | _, [] => 0
  | units + 1, c :: rest => charactersFor (units + 1 - unitWidth c) rest + 1

/-- The terminator `\r\n` at the end of a line counts as one character. -/
def shortenTerminator (line : List Char) : List Char :=
  match line.reverse with
  | '\n' :: '\r' :: rest => ('\n' :: rest).reverse
  | _ => line

/-- The column of a cursor in a line, in characters. -/
def cursorColumn (line : List Char) (units : Nat) : Nat :=
  let line := shortenTerminator line
  let size := unitLength line
  if size = 0 then 0
  else charactersFor (if size < units then size - 1 else units) line

/-- The conversion that runs use: a column counts UTF-16 code units, and below the last line a cursor is
moved to the end of the text, as far as that line has code units. -/
def cursorOffset (text : List Char) (line units : Nat) : Nat :=
  let all := Text.lines text
  let before := fun n => (all.take n).foldr (fun l count => l.length + count) 0
  match all[line]? with
  | some l => before line + cursorColumn l units
  | none =>
    match all.getLast? with
    | some l => before (all.length - 1) + unitLength l
    | none => 0

end AnalyzerBridge
