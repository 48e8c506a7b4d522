/-
The local scan.

`findings` lists what the three lexical checks find in a text, and `validate`
applies it to a source that may come as text or as bytes.  The scan is
approximate: it prefers missing an error over reporting a false one, and it
answers for every source.
-/
import AnalyzerBridge.Scan.Arrow
import AnalyzerBridge.Scan.Bracket
import AnalyzerBridge.Scan.Declaration
import AnalyzerBridge.Text.Utf8

namespace AnalyzerBridge.Scan

/-- What is given for a source: text, bytes, or something that is neither. -/
inductive Source where
  | text (s : String)
  | bytes (b : List UInt8)
  | foreign

/-- The characters of a source, if it has any. -/
def Source.chars : Source → List Char
  | .text s => s.toList
  | .bytes b => Text.Utf8.decodeLossy b
  | .foreign => []

/-- The findings of the three checks, one check after the other. -/
def findings (text : List Char) : List Descriptor :=
  bracketFindings text ++ declarationFindings text ++ arrowFindings text

/-- The findings in a source. -/
def validate (source : Source) : List Descriptor :=
  findings source.chars

end AnalyzerBridge.Scan
