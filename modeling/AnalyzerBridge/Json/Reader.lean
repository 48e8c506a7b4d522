/-
Reading JSON.

`parse` reads one value with blanks around it.  It accepts the names `NaN`,
`Infinity` and `-Infinity` for numbers, and escapes of unpaired surrogates; of
fields with one name the last stands.  An integer beyond the digit limit and a
nesting beyond `depth` are faults of their own, met in reading order.

Design notes: each list or table that is entered takes one level of the stack,
and how many levels are left depends on who calls the reader, so `depth` is an
argument of `parse`.  The readers of values, items and fields call each other on
ever shorter rests; they are recursive on `fuel`, and `parse` gives them more than
the text has characters.  What has been read of a list, a table or a string is
kept in reverse, so that a long text needs no deep recursion.
-/
import AnalyzerBridge.Number.Integer
import AnalyzerBridge.Value.Basic

namespace AnalyzerBridge.Json

/-- Why a text is not read as JSON. -/
inductive Fault where
  | malformed
  | tooDeep
  | integerTooLong (digits : Nat)
  deriving DecidableEq

/-- What a reader got from the front of a text, and the rest. -/
abbrev Read (α : Type) := Except Fault (α × List Char)

/-- A blank between tokens. -/
def isBlank (c : Char) : Bool :=
  c == ' ' || c == '\t' || c == '\n' || c == '\r'

/-- The text without the blanks in front. -/
def skipBlanks (text : List Char) : List Char :=
  text.dropWhile isBlank

/-- The text after a word, if it starts with the word. -/
def afterWord? : (word text : List Char) → Option (List Char)
  | [], text => some text
  | w :: word, c :: text => if w == c then afterWord? word text else none
  | _ :: _, [] => none

/-- The character that a one-letter escape stands for. -/
def simpleEscape? (c : Char) : Option Char :=
  if c == '"' || c == '\\' || c == '/' then some c
  else if c == 'b' then some (Char.ofNat 8)
  else if c == 'f' then some (Char.ofNat 12)
  else if c == 'n' then some '\n'
  else if c == 'r' then some '\r'
  else if c == 't' then some '\t'
  else none

/-- The code unit written by four hexadecimal digits. -/
def unitOf? (digits : List Char) : Option Nat :=
  (digits.mapM Text.hexValue?).map (Text.ofDigits 16)

/-- Reads a string after its opening quote, `reversed` holding what stands before. -/
def readString (reversed : LooseText) : List Char → Read LooseText
  | [] => .error .malformed
  | '"' :: rest => .ok (reversed.reverse, rest)
  | '\\' :: 'u' :: a :: b :: c :: d :: rest =>
    match unitOf? [a, b, c, d] with
    | some unit => readString (LooseText.pushUnit reversed unit) rest
    | none => .error .malformed
  | '\\' :: e :: rest =>
    match simpleEscape? e with
    | some c => readString (.char c :: reversed) rest
    | none => .error .malformed
  | c :: rest =>
    if c.toNat < 0x20 || c == '\\' then .error .malformed
    else readString (.char c :: reversed) rest

/-- The digits after a mark, if at least one follows it: a fraction after its point, an exponent after
its letter and sign. -/
def digitsAfter? (text : List Char) : Option (List Char × List Char) :=
  let digits := text.takeWhile Text.isAsciiDigit
  if digits.isEmpty then none else some (digits, text.dropWhile Text.isAsciiDigit)

/-- Reads a fraction, if there is one. -/
def readFraction? : List Char → Option (List Char × List Char)
  | '.' :: rest => digitsAfter? rest
  | _ => none

/-- Reads an exponent, if there is one. -/
def readExponent? : List Char → Option (Int × List Char)
  | mark :: rest =>
    if mark == 'e' || mark == 'E' then
      match rest with
      | '-' :: more => (digitsAfter? more).map fun p => (-(digitsValue p.1 : Int), p.2)
      | '+' :: more => (digitsAfter? more).map fun p => ((digitsValue p.1 : Int), p.2)
      | more => (digitsAfter? more).map fun p => ((digitsValue p.1 : Int), p.2)
    else none
  | [] => none
where
  /-- The number written by ASCII digits. -/
  digitsValue (digits : List Char) : Nat := Text.ofDigits 10 (digits.filterMap Text.digitValue?)

/-- The digits of an integer part: a lone zero, or digits that start with another. -/
def integerDigits (text : List Char) : List Char × List Char :=
  match text with
  | '0' :: rest => (['0'], rest)
  | _ => (text.takeWhile Text.isAsciiDigit, text.dropWhile Text.isAsciiDigit)

/-- Reads a number without its sign. -/
def readMagnitude (limit : Option Nat) (negative : Bool) (text : List Char) : Read Value :=
  let (whole, rest) := integerDigits text
  let value := fun ds : List Char => Text.ofDigits 10 (ds.filterMap Text.digitValue?)
  if whole.isEmpty then .error .malformed
  else
    match readFraction? rest with
    | some (fraction, rest) =>
      match readExponent? rest with
      | some (e, rest) =>
        .ok (.float (Binary64.ofDecimal negative (value (whole ++ fraction)) (e - fraction.length)),
          rest)
      | none =>
        .ok (.float (Binary64.ofDecimal negative (value (whole ++ fraction)) (-fraction.length)), rest)
    | none =>
      match readExponent? rest with
      | some (e, rest) => .ok (.float (Binary64.ofDecimal negative (value whole) e), rest)
      | none =>
        if limit.any fun most => most < whole.length then .error (.integerTooLong whole.length)
        else
          let n : Int := value whole
          .ok (.int (if negative then -n else n), rest)

/-- Reads a value that is no string, list or table. -/
def readAtom (limit : Option Nat) (text : List Char) : Read Value :=
  let named : List (List Char × Value) :=
    [("null".toList, .null), ("true".toList, .bool true), ("false".toList, .bool false),
      ("NaN".toList, .float .nan), ("Infinity".toList, .float (.infinite false)),
      ("-Infinity".toList, .float (.infinite true))]
  match named.findSome? fun p => (afterWord? p.1 text).map fun rest => (p.2, rest) with
  | some found => .ok found
  | none =>
    match text with
    | '-' :: rest => readMagnitude limit true rest
    | _ => readMagnitude limit false text

/-- Adds a field to a reversed list of fields, if its name is a proper text: no other name can be
asked for. -/
def addField (name : LooseText) (v : Value) (reversed : List (String × Value)) :
    List (String × Value) :=
  match name.toString? with
  | some s => (s, v) :: reversed
  | none => reversed

mutual

/-- Reads a value that starts at the front of the text. -/
def readValue (limit : Option Nat) : (fuel depth : Nat) → List Char → Read Value
  | 0, _, _ => .error .malformed
  | fuel + 1, depth, text =>
    match text with
    | '"' :: rest => (readString [] rest).map fun p => (Value.ofLoose p.1, p.2)
    | c :: rest =>
      if c == '[' then
        match depth with
        | 0 => .error .tooDeep
        | depth + 1 =>
          match skipBlanks rest with
          | ']' :: rest => .ok (.list [], rest)
          | rest => readItems limit fuel depth [] rest
      else if c.toNat == 0x7B then
        match depth with
        | 0 => .error .tooDeep
        | depth + 1 =>
          match skipBlanks rest with
          | [] => .error .malformed
          | c :: rest =>
            if c.toNat == 0x7D then .ok (.table [], rest)
            else readFields limit fuel depth [] (c :: rest)
      else readAtom limit text
    | [] => .error .malformed

/-- Reads the items of a list up to its closing bracket. -/
def readItems (limit : Option Nat) : (fuel depth : Nat) → List Value → List Char → Read Value
  | 0, _, _, _ => .error .malformed
  | fuel + 1, depth, reversed, text =>
    match readValue limit fuel depth text with
    | .error fault => .error fault
    | .ok (v, rest) =>
      match skipBlanks rest with
      | ']' :: rest => .ok (.list (v :: reversed).reverse, rest)
      | ',' :: rest => readItems limit fuel depth (v :: reversed) (skipBlanks rest)
      | _ => .error .malformed

/-- Reads the fields of a table up to its closing brace. -/
def readFields (limit : Option Nat) :
    (fuel depth : Nat) → List (String × Value) → List Char → Read Value
  | 0, _, _, _ => .error .malformed
  | fuel + 1, depth, reversed, text =>
    match text with
    | '"' :: rest =>
      match readString [] rest with
      | .error fault => .error fault
      | .ok (name, rest) =>
        match skipBlanks rest with
        | ':' :: rest =>
          match readValue limit fuel depth (skipBlanks rest) with
          | .error fault => .error fault
          | .ok (v, rest) =>
            let reversed := addField name v reversed
            match skipBlanks rest with
            | ',' :: rest => readFields limit fuel depth reversed (skipBlanks rest)
            | c :: rest =>
              if c.toNat == 0x7D then .ok (.table (Table.ofFields reversed.reverse), rest)
              else .error .malformed
            | [] => .error .malformed
        | _ => .error .malformed
    | _ => .error .malformed

end

/-- The levels of lists and tables that a reader finds room for when nobody says how many there are. -/
def runDepth : Nat := 900

/-- Reads a text that is one JSON value with blanks around it, lists and tables nested at most `depth`
deep.  Without a limit, integers of any length are read. -/
def parse (limit : Option Nat) (text : List Char) (depth : Nat := runDepth) : Except Fault Value :=
  match readValue limit (2 * text.length + 2) depth (skipBlanks text) with
  | .error fault => .error fault
  | .ok (v, rest) => if (skipBlanks rest).isEmpty then .ok v else .error .malformed

end AnalyzerBridge.Json
