/-
Arrows that open a line.

A line whose first characters after its blanks are the lambda arrow is reported
at the arrow.  Lines are cut at every terminator, and each keeps its own, so the
lengths of the lines before add up to the offset of a line.
-/
import AnalyzerBridge.Outcome
import AnalyzerBridge.Text.Blank
import AnalyzerBridge.Text.Line

namespace AnalyzerBridge.Scan

/-- The line opens with an arrow, after this many blanks. -/
def arrowIndent? (line : List Char) : Option Nat :=
  match line.dropWhile Text.isBlank with
  | '=' :: '>' :: _ => some (line.takeWhile Text.isBlank).length
  | _ => none

/-- The finding on an arrow. -/
def arrowFinding (offset : Nat) : Descriptor :=
  { message := LooseText.ofString "Unexpected => at start of line"
    offset := some offset
    length := some 2 }

/-- The findings in the lines that start at the given offset. -/
def arrowsFrom (start : Nat) : List (List Char) → List Descriptor
  | [] => []
  | line :: rest =>
    match arrowIndent? line with
    | some indent => arrowFinding (start + indent) :: arrowsFrom (start + line.length) rest
    | none => arrowsFrom (start + line.length) rest

/-- The findings on arrows that open a line, by offset. -/
def arrowFindings (text : List Char) : List Descriptor :=
  arrowsFrom 0 (Text.lines text)

end AnalyzerBridge.Scan
