/-
Unfinished declarations.

A declaration keyword with nothing but spaces and tabs after it on its line is
unfinished.  The keyword must not continue a word, and a carriage return before
the line feed, or before the end of the text, belongs to the line's end.
-/
import AnalyzerBridge.Outcome
import AnalyzerBridge.Text.Word

namespace AnalyzerBridge.Scan

/-- A keyword that opens a declaration. -/
inductive Keyword where
  | value
  | function
  deriving DecidableEq, Inhabited

/-- The spelling of a keyword. -/
def Keyword.text : Keyword → String
  | .value => "val"
  | .function => "def"

/-- The keyword at the front of a text, and what follows it. -/
def keywordAt? : List Char → Option (Keyword × List Char)
  | 'v' :: 'a' :: 'l' :: rest => some (.value, rest)
  | 'd' :: 'e' :: 'f' :: rest => some (.function, rest)
  | _ => none

/-- The rest of the line is spaces and tabs, up to one carriage return. -/
def lineIsOver (text : List Char) : Bool :=
  let rest := text.dropWhile fun c => c == ' ' || c == '\t'
  let rest := if rest.head? == some '\r' then rest.drop 1 else rest
  rest.isEmpty || rest.head? == some '\n'

/-- The unfinished keyword at the front of a text that `before` precedes. -/
def unfinishedAt? (before : Option Char) (text : List Char) : Option Keyword :=
  match keywordAt? text with
  | some (k, rest) => if !before.any Text.isWordChar && lineIsOver rest then some k else none
  | none => none

/-- The finding on an unfinished declaration. -/
def unfinishedFinding (offset : Nat) (k : Keyword) : Descriptor :=
  { message := LooseText.ofString ("Incomplete " ++ k.text ++ " declaration")
    offset := some offset
    length := some (k.text.length : Int) }

/-- Collects the findings of the text after `before`, in front of which `offset` characters stand and
`found` has been found, last first. -/
def declarationsFrom (before : Option Char) (offset : Nat) (found : List Descriptor) :
    List Char → List Descriptor
  | [] => found.reverse
  | c :: rest =>
    match unfinishedAt? before (c :: rest) with
    | some k => declarationsFrom (some c) (offset + 1) (unfinishedFinding offset k :: found) rest
    | none => declarationsFrom (some c) (offset + 1) found rest

/-- The findings on unfinished declarations, by offset. -/
def declarationFindings (text : List Char) : List Descriptor :=
  declarationsFrom none 0 [] text

end AnalyzerBridge.Scan
