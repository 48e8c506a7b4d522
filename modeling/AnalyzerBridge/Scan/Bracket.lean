/-
The bracket scan.

Three counters, one for each kind of bracket, run over the text independently of
each other.  A closer whose counter is zero is stray and leaves it at zero;
counters that are positive at the end tell how many openers are unclosed.

Main definitions: `scan` runs the counters, `bracketFindings` lists the stray
closers in order of offset and then the unclosed kinds.
-/
import AnalyzerBridge.Outcome

namespace AnalyzerBridge.Scan

/-- A kind of bracket. -/
inductive Bracket where
  | brace
  | parenthesis
  | bracket
  deriving DecidableEq, Inhabited

namespace Bracket

/-- The kinds in the order in which unclosed ones are reported. -/
def all : List Bracket := [.brace, .parenthesis, .bracket]

/-- The name of a kind. -/
def name : Bracket → String
  | brace => "brace"
  | parenthesis => "parenthesis"
  | bracket => "bracket"

/-- The character that opens a kind. -/
def opener : Bracket → Char
  | brace => Char.ofNat 0x7B
  | parenthesis => '('
  | bracket => '['

/-- The character that closes a kind. -/
def closer : Bracket → Char
  | brace => Char.ofNat 0x7D
  | parenthesis => ')'
  | bracket => ']'

/-- The kind that a character opens. -/
def opened? (c : Char) : Option Bracket :=
  all.find? fun k => k.opener == c

/-- The kind that a character closes. -/
def closed? (c : Char) : Option Bracket :=
  all.find? fun k => k.closer == c

end Bracket

/-- The number of open brackets of each kind. -/
structure Depths where
  brace : Nat := 0
  parenthesis : Nat := 0
  bracket : Nat := 0
  deriving DecidableEq, Inhabited

namespace Depths

/-- The counter of a kind. -/
def get (d : Depths) : Bracket → Nat
  | .brace => d.brace
  | .parenthesis => d.parenthesis
  | .bracket => d.bracket

/-- Sets the counter of a kind. -/
def set (d : Depths) (k : Bracket) (n : Nat) : Depths :=
  match k with
  | .brace => { d with brace := n }
  | .parenthesis => { d with parenthesis := n }
  | .bracket => { d with bracket := n }

end Depths

/-- The state of the scan: the characters read, the counters, and the stray closers, last first. -/
structure BracketState where
  offset : Nat := 0
  depths : Depths := {}
  strays : List (Nat × Bracket) := []

/-- Reads one character. -/
def BracketState.read (s : BracketState) (c : Char) : BracketState :=
  match Bracket.opened? c with
  | some k => { s with offset := s.offset + 1, depths := s.depths.set k (s.depths.get k + 1) }
  | none =>
    match Bracket.closed? c with
    | none => { s with offset := s.offset + 1 }
    | some k =>
      if s.depths.get k = 0 then
        { s with offset := s.offset + 1, strays := (s.offset, k) :: s.strays }
      else { s with offset := s.offset + 1, depths := s.depths.set k (s.depths.get k - 1) }

/-- Runs the counters over a text. -/
def scan (text : List Char) : BracketState :=
  text.foldl BracketState.read {}

/-- The finding on a stray closer. -/
def strayFinding (offset : Nat) (k : Bracket) : Descriptor :=
  { message := LooseText.ofString ("Unexpected closing " ++ k.name ++ " " ++ k.closer.toString)
    offset := some offset
    length := some 1 }

/-- The finding on openers without closer, placed at the last character of the text. -/
def unclosedFinding (size : Nat) (k : Bracket) (count : Nat) : Descriptor :=
  { message := LooseText.ofString
      ("Unclosed " ++ k.name ++ " " ++ k.opener.toString ++ " (" ++ toString count ++ " unclosed)")
    offset := some (size - 1 : Nat) }

/-- The findings of the bracket scan: stray closers by offset, then the unclosed kinds. -/
def bracketFindings (text : List Char) : List Descriptor :=
  let s := scan text
  (s.strays.reverse.map fun p => strayFinding p.1 p.2) ++
    (Bracket.all.filter fun k => 0 < s.depths.get k).map fun k =>
      unclosedFinding s.offset k (s.depths.get k)

end AnalyzerBridge.Scan
