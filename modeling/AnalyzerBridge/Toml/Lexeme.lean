/-
The lexemes of TOML.

Each reader takes one lexeme from the front of a text and answers with what it
denotes and the rest: quoted and bare keys, strings of the four kinds, numbers,
dates and times.  Newlines are line feeds here; the other spellings have been
unified before.

Design notes: what is not read is a fault, and all faults but two are alike,
because a file with any of them counts as empty.
-/
import AnalyzerBridge.Number.Integer
import AnalyzerBridge.Value.Basic

namespace AnalyzerBridge.Toml

/-- Why a text is not read as TOML. -/
inductive Fault where
  | malformed
  | tooDeep
  | integerTooLong (digits : Nat)
  deriving DecidableEq

/-- What a reader got from the front of a text, and the rest. -/
abbrev Read (α : Type) := Except Fault (α × List Char)

/-- A space or a tab. -/
def isBlank (c : Char) : Bool :=
  c == ' ' || c == '\t'

/-- A space, a tab or a newline. -/
def isSpace (c : Char) : Bool :=
  isBlank c || c == '\n'

/-- The text without the blanks in front. -/
def skipBlanks (text : List Char) : List Char :=
  text.dropWhile isBlank

/-- A control character other than the tab, which neither comments nor strings on one line hold. -/
def isControl (c : Char) : Bool :=
  (c.toNat < 32 || c.toNat == 127) && c != '\t'

/-- The text from the end of a comment on, if one is in front. -/
def skipComment : List Char → Except Fault (List Char)
  | '#' :: rest =>
    if (rest.takeWhile (· != '\n')).any isControl then .error .malformed
    else .ok (rest.dropWhile (· != '\n'))
  | text => .ok text

/-- The text without the blanks, newlines and comments in front; `inComment` tells that a comment has
begun. -/
def skipSpace : (inComment : Bool) → List Char → Except Fault (List Char)
  | _, [] => .ok []
  | true, c :: rest =>
    if c == '\n' then skipSpace false rest
    else if isControl c then .error .malformed
    else skipSpace true rest
  | false, c :: rest =>
    if isSpace c then skipSpace false rest
    else if c == '#' then skipSpace true rest
    else .ok (c :: rest)

/-! ### Strings -/

/-- The character of a code point, if it is no surrogate. -/
def scalar? (n : Nat) : Option Char :=
  if h : n.isValidChar then some (Char.ofNatAux n h) else none

/-- The character written by hexadecimal digits of a fixed number. -/
def hexScalar? (digits : Nat) (text : List Char) : Option Char :=
  let code := text.take digits
  if code.length = digits then
    ((code.mapM Text.hexValue?).map (Text.ofDigits 16)).bind scalar?
  else none

/-- The character that an escape denotes, and the number of characters of the escape after its
backslash. -/
def escape? : List Char → Option (Char × Nat)
  | 'b' :: _ => some (Char.ofNat 8, 1)
  | 't' :: _ => some ('\t', 1)
  | 'n' :: _ => some ('\n', 1)
  | 'f' :: _ => some (Char.ofNat 12, 1)
  | 'r' :: _ => some ('\r', 1)
  | '"' :: _ => some ('"', 1)
  | '\\' :: _ => some ('\\', 1)
  | 'u' :: rest => (hexScalar? 4 rest).map fun c => (c, 5)
  | 'U' :: rest => (hexScalar? 8 rest).map fun c => (c, 9)
  | _ => none

/-- The number of characters that a backslash at the end of a line joins away: the blanks after it,
the newline, and every blank and newline that follows. -/
def joinedLength? (text : List Char) : Option Nat :=
  let blanks := text.takeWhile isBlank
  match text.drop blanks.length with
  | '\n' :: rest => some (blanks.length + 1 + (rest.takeWhile isSpace).length)
  | _ => none

/-- Reads a basic string on one line, after its opening quote. -/
def readBasic (reversed : List Char) (text : List Char) : Read (List Char) :=
  match text with
  | [] => .error .malformed
  | '"' :: rest => .ok (reversed.reverse, rest)
  | '\\' :: rest =>
    match escape? rest with
    | some (c, width) => readBasic (c :: reversed) (rest.drop width)
    | none => .error .malformed
  | c :: rest => if isControl c then .error .malformed else readBasic (c :: reversed) rest
  termination_by text.length
  decreasing_by all_goals simp only [List.length_drop, List.length_cons]; omega

/-- Up to two more quotes at the end of a string over several lines belong to it. -/
def closeLong (quote : Char) (reversed : List Char) : List Char → List Char × List Char
  | a :: b :: rest =>
    if a == quote then
      if b == quote then ((b :: a :: reversed).reverse, rest)
      else ((a :: reversed).reverse, b :: rest)
    else (reversed.reverse, a :: b :: rest)
  | [a] => if a == quote then ((a :: reversed).reverse, []) else (reversed.reverse, [a])
  | [] => (reversed.reverse, [])

/-- Reads a basic string over several lines, after its opening quotes. -/
def readLongBasic (reversed : List Char) (text : List Char) : Read (List Char) :=
  match text with
  | [] => .error .malformed
  | '"' :: '"' :: '"' :: rest => .ok (closeLong '"' reversed rest)
  | '\\' :: rest =>
    match joinedLength? rest with
    | some width => readLongBasic reversed (rest.drop width)
    | none =>
      match escape? rest with
      | some (c, width) => readLongBasic (c :: reversed) (rest.drop width)
      | none => .error .malformed
  | c :: rest =>
    if isControl c && c != '\n' then .error .malformed else readLongBasic (c :: reversed) rest
  termination_by text.length
  decreasing_by all_goals simp only [List.length_drop, List.length_cons]; omega

/-- Reads a literal string on one line, after its opening quote. -/
def readLiteral (reversed : List Char) : List Char → Read (List Char)
  | [] => .error .malformed
  | '\'' :: rest => .ok (reversed.reverse, rest)
  | c :: rest => if isControl c then .error .malformed else readLiteral (c :: reversed) rest

/-- Reads a literal string over several lines, after its opening quotes. -/
def readLongLiteral (reversed : List Char) : List Char → Read (List Char)
  | [] => .error .malformed
  | '\'' :: '\'' :: '\'' :: rest => .ok (closeLong '\'' reversed rest)
  | c :: rest =>
    if isControl c && c != '\n' then .error .malformed else readLongLiteral (c :: reversed) rest

/-- A newline directly after the opening quotes of a string over several lines is no part of it. -/
def skipFirstNewline : List Char → List Char
  | '\n' :: rest => rest
  | text => text

/-- Reads a string of any kind, quotes included. -/
def readString? : List Char → Option (Read (List Char))
  | '"' :: '"' :: '"' :: rest => some (readLongBasic [] (skipFirstNewline rest))
  | '"' :: rest => some (readBasic [] rest)
  | '\'' :: '\'' :: '\'' :: rest => some (readLongLiteral [] (skipFirstNewline rest))
  | '\'' :: rest => some (readLiteral [] rest)
  | _ => none

/-! ### Keys -/

/-- A character of a bare key. -/
def isBareKeyChar (c : Char) : Bool :=
  ('a' ≤ c && c ≤ 'z') || ('A' ≤ c && c ≤ 'Z') || Text.isAsciiDigit c || c == '-' || c == '_'

/-- Reads one part of a key. -/
def readKeyPart : List Char → Read String
  | '\'' :: rest => (readLiteral [] rest).map fun p => (String.ofList p.1, p.2)
  | '"' :: rest => (readBasic [] rest).map fun p => (String.ofList p.1, p.2)
  | text =>
    let bare := text.takeWhile isBareKeyChar
    if bare.isEmpty then .error .malformed
    else .ok (String.ofList bare, text.dropWhile isBareKeyChar)

/-- Reads the parts of a dotted key, `fuel` bounding their number. -/
def readKeyParts : (fuel : Nat) → (reversed : List String) → List Char → Read (List String)
  | 0, _, _ => .error .malformed
  | fuel + 1, reversed, text =>
    match readKeyPart text with
    | .error fault => .error fault
    | .ok (part, rest) =>
      match skipBlanks rest with
      | '.' :: rest => readKeyParts fuel (part :: reversed) (skipBlanks rest)
      | rest => .ok ((part :: reversed).reverse, rest)

/-- Reads a dotted key and the blanks after it. -/
def readKey (text : List Char) : Read (List String) :=
  readKeyParts (text.length + 1) [] text

/-! ### Numbers -/

/-- Digits in which single underscores may stand between two, from the front of a text. -/
def digitRun (isDigit : Char → Bool) : List Char → List Char × List Char
  | '_' :: c :: rest =>
    if isDigit c then
      let more := digitRun isDigit rest
      (c :: more.1, more.2)
    else ([], '_' :: c :: rest)
  | c :: rest =>
    if isDigit c then
      let more := digitRun isDigit rest
      (c :: more.1, more.2)
    else ([], c :: rest)
  | [] => ([], [])

/-- A run of digits that starts with one. -/
def digits? (isDigit : Char → Bool) (text : List Char) : Option (List Char × List Char) :=
  if text.head?.any isDigit then some (digitRun isDigit text) else none

/-- The number that digits write in a base. -/
def digitsValue (base : Nat) (digits : List Char) : Nat :=
  Text.ofDigits base (digits.filterMap Text.hexValue?)

/-- An octal digit. -/
def isOctalDigit (c : Char) : Bool :=
  '0' ≤ c && c ≤ '7'

/-- A binary digit. -/
def isBinaryDigit (c : Char) : Bool :=
  c == '0' || c == '1'

/-- A hexadecimal digit. -/
def isHexDigit (c : Char) : Bool :=
  (Text.hexValue? c).isSome

/-- Reads an integer with a base mark. -/
def readBased? : List Char → Option (Int × List Char)
  | '0' :: mark :: rest =>
    let based := fun (isDigit : Char → Bool) (base : Nat) =>
      (digits? isDigit rest).map fun p => ((digitsValue base p.1 : Int), p.2)
    if mark == 'x' then based isHexDigit 16
    else if mark == 'b' then based isBinaryDigit 2
    else if mark == 'o' then based isOctalDigit 8
    else none
  | _ => none

/-- The integer part of a decimal number: a lone zero, or digits that start with another. -/
def wholeDigits? (text : List Char) : Option (List Char × List Char) :=
  match text with
  | '0' :: rest => some (['0'], rest)
  | _ => digits? Text.isAsciiDigit text

/-- The fraction of a decimal number, if it has one. -/
def fraction? : List Char → Option (List Char × List Char)
  | '.' :: rest => digits? Text.isAsciiDigit rest
  | _ => none

/-- A sign and what follows it. -/
def takeSign : List Char → Bool × List Char
  | '-' :: rest => (true, rest)
  | '+' :: rest => (false, rest)
  | text => (false, text)

/-- The exponent of a decimal number, if it has one. -/
def exponent? : List Char → Option (Int × List Char)
  | mark :: rest =>
    if mark == 'e' || mark == 'E' then
      let signed := takeSign rest
      (digits? Text.isAsciiDigit signed.2).map fun p =>
        let n : Int := digitsValue 10 p.1
        (if signed.1 then -n else n, p.2)
    else none
  | [] => none

/-- Reads a decimal number: an integer, or a floating-point number if it has a fraction or an
exponent. -/
def readDecimal? (text : List Char) : Option (Read Value) :=
  let (negative, unsigned) := takeSign text
  match wholeDigits? unsigned with
  | none => none
  | some (whole, rest) =>
    let (fraction, rest') := (fraction? rest).getD ([], rest)
    match exponent? rest' with
    | some (e, rest) =>
      some (.ok (.float (Binary64.ofDecimal negative (digitsValue 10 (whole ++ fraction))
        (e - fraction.length)), rest))
    | none =>
      if !fraction.isEmpty then
        some (.ok (.float (Binary64.ofDecimal negative (digitsValue 10 (whole ++ fraction))
          (-fraction.length)), rest'))
      else if Number.digitLimit < whole.length then some (.error (.integerTooLong whole.length))
      else
        let n : Int := digitsValue 10 whole
        some (.ok (.int (if negative then -n else n), rest'))

/-- Reads one of the floating-point numbers that have names. -/
def readNamed? (text : List Char) : Option (Value × List Char) :=
  let (negative, unsigned) := takeSign text
  match unsigned with
  | 'i' :: 'n' :: 'f' :: rest => some (.float (.infinite negative), rest)
  | 'n' :: 'a' :: 'n' :: rest => some (.float .nan, rest)
  | _ => none

/-! ### Dates and times -/

/-- Reads a number of a fixed count of digits between two bounds. -/
def fixedNumber? (count low high : Nat) (text : List Char) : Option (Nat × List Char) :=
  let digits := text.take count
  let n := digitsValue 10 digits
  if digits.length = count && digits.all Text.isAsciiDigit && low ≤ n && n ≤ high then
    some (n, text.drop count)
  else none

/-- The text after a given character. -/
def after? (mark : Char) : List Char → Option (List Char)
  | c :: rest => if c == mark then some rest else none
  | [] => none

/-- Reads the shape of a date; the day may not exist in its month. -/
def readDate? (text : List Char) : Option (Date × List Char) := do
  let (year, text) ← fixedNumber? 4 0 9999 text
  let text ← after? '-' text
  let (month, text) ← fixedNumber? 2 1 12 text
  let text ← after? '-' text
  let (day, text) ← fixedNumber? 2 1 31 text
  some (⟨year, month, day⟩, text)

/-- Reads a fraction of a second as microseconds, cutting it to six digits. -/
def readMicros (text : List Char) : Nat × List Char :=
  match text with
  | '.' :: rest =>
    let digits := rest.takeWhile Text.isAsciiDigit
    if digits.isEmpty then (0, text)
    else (digitsValue 10 ((digits ++ List.replicate 5 '0').take 6), rest.dropWhile Text.isAsciiDigit)
  | _ => (0, text)

/-- Reads a time of day. -/
def readTime? (text : List Char) : Option (TimeOfDay × List Char) := do
  let (hour, text) ← fixedNumber? 2 0 23 text
  let text ← after? ':' text
  let (minute, text) ← fixedNumber? 2 0 59 text
  let text ← after? ':' text
  let (second, text) ← fixedNumber? 2 0 59 text
  let (micro, text) := readMicros text
  some (⟨hour, minute, second, micro⟩, text)

/-- Reads hours and minutes of an offset. -/
def readOffsetMinutes? (text : List Char) : Option (Int × List Char) := do
  let (hours, text) ← fixedNumber? 2 0 23 text
  let text ← after? ':' text
  let (minutes, text) ← fixedNumber? 2 0 59 text
  some ((hours * 60 + minutes : Nat), text)

/-- Reads an offset from UTC, if there is one. -/
def readOffset (text : List Char) : Option Int × List Char :=
  match text with
  | 'Z' :: rest => (some 0, rest)
  | 'z' :: rest => (some 0, rest)
  | '+' :: rest =>
    match readOffsetMinutes? rest with
    | some (m, rest) => (some m, rest)
    | none => (none, text)
  | '-' :: rest =>
    match readOffsetMinutes? rest with
    | some (m, rest) => (some (-m), rest)
    | none => (none, text)
  | _ => (none, text)

/-- Reads a time of day after the mark that joins it to a date. -/
def readJoinedTime? : List Char → Option (TimeOfDay × List Char)
  | mark :: rest => if mark == 'T' || mark == 't' || mark == ' ' then readTime? rest else none
  | [] => none

/-- Reads a date, a date with a time of day, or a time of day. -/
def readMoment? (text : List Char) : Option (Read Value) :=
  match readDate? text with
  | some (date, rest) =>
    if !date.isValid then some (.error .malformed)
    else
      match readJoinedTime? rest with
      | some (time, rest) =>
        let (offset, rest) := readOffset rest
        some (.ok (.datetime ⟨date, time, offset⟩, rest))
      | none => some (.ok (.date date, rest))
  | none => (readTime? text).map fun p => .ok (.time p.1, p.2)

end AnalyzerBridge.Toml
