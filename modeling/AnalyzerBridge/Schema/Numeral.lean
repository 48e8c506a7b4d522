/-
Integers written out as text in a record.

A numeral is a sign and digits, in groups set apart by single underscores, with a
fraction of zeros at most.  `readNumeral` first drops the zeros at the front, and
with them any underscores that follow the first zero; what remains must be an
integer in its shortest form.

Design notes: a zero in front hides whatever else is dropped with it, so that a
minus sign may also stand behind zeros (`00-7`), and only the digits that remain
count for the longest numeral that is read.
-/
import AnalyzerBridge.Schema.Problem
import AnalyzerBridge.Number.Integer

namespace AnalyzerBridge.Schema

/-- Drops zeros and underscores behind the zero or underscore `last`.  A digit or a minus sign ends
them; in front of a point, and at the end of the text, the last one of them stays. -/
def dropZerosAfter (last : Char) : List Char → Option (List Char)
  | [] => some [last]
  | c :: rest =>
    if c == '0' || c == '_' then dropZerosAfter c rest
    else if c == '.' then some (last :: c :: rest)
    else if c == '-' || Text.isAsciiDigit c then some (c :: rest)
    else none

/-- Drops the zeros in front of a text that starts with a digit. -/
def dropLeadingZeros : List Char → Option (List Char)
  | [] => none
  | c :: rest =>
    if c == '0' then dropZerosAfter c rest
    else if Text.isAsciiDigit c then some (c :: rest)
    else none

/-- Drops the plus sign, the zeros in front and those behind a minus sign. -/
def dropPadding : List Char → Option (List Char)
  | '-' :: rest => (dropLeadingZeros rest).map ('-' :: ·)
  | '+' :: rest => dropLeadingZeros rest
  | text => dropLeadingZeros text

/-- Drops a decimal point and the zeros, at least one, that follow it to the end. -/
def dropZeroFraction (text : List Char) : List Char :=
  match text.dropWhile (· != '.') with
  | '.' :: zeros =>
    if !zeros.isEmpty && zeros.all (· == '0') then text.takeWhile (· != '.') else text
  | _ => text

/-- Joins groups that single underscores set apart. -/
def joinGroups (text : List Char) : Option (List Char) :=
  if Number.underscoresSeparate text then some (text.filter (· != '_')) else none

/-- Reads digits in their shortest form: zero alone, or digits that do not start with it.  A run of
digits that is too long is refused before anything that follows it is looked at. -/
def readMagnitude (text : List Char) : Except Complaint Nat :=
  let run := text.takeWhile Text.isAsciiDigit
  if run.isEmpty || (run.head? == some '0' && 1 < run.length) then .error .unreadableInteger
  else if Number.digitLimit < run.length then .error .integerTooLarge
  else if run.length < text.length then .error .unreadableInteger
  else .ok (Text.ofDigits 10 (run.filterMap Text.digitValue?))

/-- Reads an integer in its shortest form.  Its sign counts for no digit. -/
def readShortest : List Char → Except Complaint Int
  | '-' :: rest => (readMagnitude rest).map fun n => -(n : Int)
  | rest => (readMagnitude rest).map fun n => (n : Int)

/-- Reads a numeral between blanks. -/
def readNumeral (text : String) : Except Complaint Int :=
  match dropPadding (Text.trimBoth Number.isNumberBlank text.toList) with
  | none => .error .unreadableInteger
  | some bare =>
    match joinGroups (dropZeroFraction bare) with
    | none => .error .unreadableInteger
    | some digits => readShortest digits

end AnalyzerBridge.Schema
