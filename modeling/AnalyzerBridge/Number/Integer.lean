/-
Integers read from text.

`readInteger` accepts blanks around, one sign, and decimal digits of any script
with single underscores between them.  A run of more than 4300 digits is refused
for its length, before anything that follows it is looked at.
-/
import AnalyzerBridge.Text.Blank
import AnalyzerBridge.Text.Digit

namespace AnalyzerBridge.Number

/-- Why a text is read as no integer. -/
inductive IntegerFault where
  | malformed
  | tooLong (digits : Nat)
  deriving DecidableEq

/-- The longest run of digits that is read. -/
def digitLimit : Nat := 4300

/-- A blank around a number: any blank but the four information separators. -/
def isNumberBlank (c : Char) : Bool :=
  Text.isBlank c && !(0x1C ≤ c.toNat && c.toNat ≤ 0x1F)

/-- An underscore stands neither first nor last nor beside another. -/
def underscoresSeparate (run : List Char) : Bool :=
  run.head? != some '_' && run.getLast? != some '_' &&
    (run.zip run.tail).all fun pair => !(pair.1 == '_' && pair.2 == '_')

/-- Reads digits with single underscores between them, to the end of the text. -/
def readDigits (text : List Char) : Except IntegerFault Nat :=
  let inRun := fun c => Text.isDigit c || c == '_'
  let run := text.takeWhile inRun
  let digits := run.filterMap Text.digitValue?
  if digits.isEmpty || !underscoresSeparate run then .error .malformed
  else if digitLimit < digits.length then .error (.tooLong digits.length)
  else if (text.dropWhile inRun).isEmpty then .ok (Text.ofDigits 10 digits)
  else .error .malformed

/-- Reads an integer: blanks, a sign, digits, blanks. -/
def readInteger (text : List Char) : Except IntegerFault Int :=
  match Text.trimBoth isNumberBlank text with
  | '-' :: rest => (readDigits rest).map fun n => -(n : Int)
  | '+' :: rest => (readDigits rest).map fun n => (n : Int)
  | rest => (readDigits rest).map fun n => (n : Int)

end AnalyzerBridge.Number
