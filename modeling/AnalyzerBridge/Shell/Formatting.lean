/-
The texts that the shell prints.

`echoed` is the output of `echo`, `formatted` that of `printf`.  Both understand
backslash escapes; octal escapes stand for single bytes.

Support for runs: nothing is proved about this module, and no proof rests on it.
-/
import AnalyzerBridge.Number.Integer
import AnalyzerBridge.Text.Digit
import AnalyzerBridge.Text.Utf8

namespace AnalyzerBridge.Shell

/-- The bytes of a text. -/
def bytesOf (s : String) : List UInt8 :=
  Text.Utf8.encodeString s

/-- The byte of an escape that is one letter. -/
def letterEscape? (c : Char) : Option UInt8 :=
  match c with
  | 'a' => some 7
  | 'b' => some 8
  | 'e' => some 27
  | 't' => some 9
  | 'n' => some 10
  | 'v' => some 11
  | 'f' => some 12
  | 'r' => some 13
  | '\\' => some 92
  | _ => none

/-- The value of an octal digit. -/
def octalValue? (c : Char) : Option Nat :=
  if '0' ≤ c && c ≤ '7' then some (c.toNat - 48) else none

/-- The octal digits at the front, a number of them at most. -/
def octalDigits (most : Nat) (text : List Char) : List Nat :=
  ((text.take most).takeWhile fun c => (octalValue? c).isSome).filterMap octalValue?

/-- An escape after its backslash, and how many characters it takes. -/
def escape (text : List Char) : List UInt8 × Nat :=
  match text with
  | [] => ([92], 0)
  | c :: _ =>
    match letterEscape? c with
    | some b => ([b], 1)
    | none =>
      match octalDigits 3 text with
      | [] => ([92], 0)
      | digits => ([UInt8.ofNat (Text.ofDigits 8 digits)], digits.length)

/-- A text with its escapes resolved, and whether it asks to stop there.  A zero may stand before three
octal digits. -/
def unescape : (fuel : Nat) → List Char → List UInt8 × Bool
  | 0, _ => ([], false)
  | fuel + 1, text =>
    let continueWith := fun (bytes : List UInt8) rest =>
      let p := unescape fuel rest
      (bytes ++ p.1, p.2)
    match text with
    | [] => ([], false)
    | '\\' :: 'c' :: _ => ([], true)
    | '\\' :: '0' :: rest =>
      let digits := octalDigits 3 rest
      continueWith [UInt8.ofNat (Text.ofDigits 8 digits)] (rest.drop digits.length)
    | '\\' :: rest =>
      let p := escape rest
      continueWith p.1 (rest.drop p.2)
    | c :: rest => continueWith (Text.Utf8.encode [c]) rest

/-- A text with its escapes resolved. -/
def unescapeText (s : String) : List UInt8 × Bool :=
  unescape (s.length + 1) s.toList

/-- The output of `echo`. -/
def echoed (args : List String) : List UInt8 :=
  match args with
  | "-n" :: rest => (unescapeText (" ".intercalate rest)).1
  | _ =>
    let p := unescapeText (" ".intercalate args)
    if p.2 then p.1 else p.1 ++ [10]

/-- An argument read as a number: its value and what is wrong with it, if anything. -/
def numberArgument (s : String) : Int × Option String :=
  match s.toList with
  | [] => (0, none)
  | q :: c :: _ =>
    if q = '\'' || q = '"' then (c.toNat, none) else read s.toList
  | text => read text
where
  read (text : List Char) : Int × Option String :=
    let negative := text.head? == some '-'
    let body := if negative || text.head? == some '+' then text.drop 1 else text
    let (base, body) := match body with
      | '0' :: x :: rest =>
        if x = 'x' || x = 'X' then (16, rest) else (8, x :: rest)
      | body => (10, body)
    let digits := (body.map Text.hexValue?).takeWhile fun d => d.any (· < base)
    let value : Int := Text.ofDigits base (digits.filterMap id)
    let value := if negative then -value else value
    if digits.isEmpty then (0, some (s ++ ": expected numeric value"))
    else if digits.length < body.length then (value, some (s ++ ": not completely converted"))
    else (value, none)

/-- How a directive lays out its argument. -/
structure Layout where
  left : Bool := false
  zeros : Bool := false
  width : Nat := 0
  precision : Option Nat := none

/-- A text padded to the width of a layout. -/
def Layout.pad (l : Layout) (bytes : List UInt8) : List UInt8 :=
  let fill := List.replicate (l.width - bytes.length) (32 : UInt8)
  if l.left then bytes ++ fill else fill ++ bytes

/-- A number padded to the width of a layout. -/
def Layout.padNumber (l : Layout) (negative : Bool) (digits : String) : List UInt8 :=
  let digits := String.ofList (List.replicate (l.precision.getD 1 - digits.length) '0') ++ digits
  let sign := if negative then "-" else ""
  let zeros :=
    if l.zeros && !l.left && l.precision.isNone then l.width - digits.length - sign.length else 0
  l.pad (bytesOf (sign ++ String.ofList (List.replicate zeros '0') ++ digits))

/-- The layout at the front of a directive, and what follows it. -/
def readLayout (text : List Char) : Layout × List Char :=
  let flags := text.takeWhile fun c => "-0+ #".toList.contains c
  let rest := text.dropWhile fun c => "-0+ #".toList.contains c
  let number := fun (cs : List Char) => ((String.ofList (cs.takeWhile Text.isAsciiDigit)).toNat?).getD 0
  let width := number rest
  let rest := rest.dropWhile Text.isAsciiDigit
  let layout : Layout := { left := flags.contains '-', zeros := flags.contains '0', width := width }
  match rest with
  | '.' :: rest => ({ layout with precision := some (number rest) }, rest.dropWhile Text.isAsciiDigit)
  | _ => (layout, rest)

/-- What formatting has come to. -/
structure Formatting where
  output : List UInt8 := []
  args : List String
  complaints : List String := []
  used : Bool := false
  stopped : Bool := false

/-- Takes the next argument. -/
def Formatting.next (f : Formatting) : Option String × Formatting :=
  match f.args with
  | [] => (none, f)
  | a :: rest => (some a, { f with args := rest, used := true })

/-- Appends bytes. -/
def Formatting.put (f : Formatting) (bytes : List UInt8) : Formatting :=
  { f with output := f.output ++ bytes }

/-- Carries out one directive. -/
def Formatting.direct (f : Formatting) (l : Layout) (directive : Char) : Formatting :=
  if directive = '%' then f.put [37]
  else
    let (arg, g) := f.next
    match directive with
    | 's' =>
      let bytes := bytesOf (arg.getD "")
      g.put (l.pad (bytes.take (l.precision.getD bytes.length)))
    | 'c' => g.put (l.pad ((bytesOf (arg.getD "")).take 1))
    | 'b' =>
      let p := unescapeText (arg.getD "")
      { g.put (l.pad p.1) with stopped := p.2 }
    | _ =>
      if "diuxXo".toList.contains directive then
        let (value, complaint) := (arg.map numberArgument).getD (0, none)
        let base := if directive = 'o' then 8 else if directive = 'x' || directive = 'X' then 16 else 10
        let signed := directive = 'd' || directive = 'i'
        -- an unsigned directive reads a number modulo two to the 64th
        let magnitude := if signed then value.natAbs else (value % 18446744073709551616).toNat
        let digits := String.ofList (Nat.toDigits base magnitude)
        let digits := if directive = 'X' then String.ofList (digits.toList.map Char.toUpper) else digits
        { g.put (l.padNumber (signed && value < 0) digits) with
          complaints := g.complaints ++ complaint.toList }
      else
        { f with
          complaints := f.complaints ++ ["%" ++ String.ofList [directive] ++ ": invalid directive"]
          stopped := true }

/-- Goes through a format once. -/
def Formatting.pass : (fuel : Nat) → List Char → Formatting → Formatting
  | 0, _, f => f
  | fuel + 1, text, f =>
    if f.stopped then f
    else
      match text with
      | [] => f
      | '\\' :: rest =>
        let p := escape rest
        pass fuel (rest.drop p.2) (f.put p.1)
      | '%' :: rest =>
        let (layout, rest) := readLayout rest
        match rest with
        | directive :: rest => pass fuel rest (f.direct layout directive)
        | [] => f
      | c :: rest => pass fuel rest (f.put (Text.Utf8.encode [c]))

/-- Goes through a format until all arguments are used. -/
def Formatting.passes : (fuel : Nat) → List Char → Formatting → Formatting
  | 0, _, f => f
  | fuel + 1, format, f =>
    let g := Formatting.pass (format.length + 1) format { f with used := false }
    if g.args.isEmpty || !g.used || g.stopped then g else passes fuel format g

/-- The output of `printf` and its complaints. -/
def formatted (format : String) (args : List String) : Formatting :=
  Formatting.passes (args.length + 1) format.toList { args := args }

end AnalyzerBridge.Shell
