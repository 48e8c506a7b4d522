/-
Expansion of words.

`expandWords` turns the words of a command into its fields: parameters are
replaced by their values, substituted commands by their output and arithmetic by
its result; what is not quoted is split at blanks.

Support for runs: nothing is proved about this module, and no proof rests on it.
-/
import AnalyzerBridge.Shell.Machine
import AnalyzerBridge.Shell.Reader

namespace AnalyzerBridge.Shell

/-! ### Arithmetic -/

/-- The operators of arithmetic, loosest level first. -/
def operatorLevels : List (List String) := [
  ["||"], ["&&"], ["==", "!="], ["<=", ">=", "<", ">"], ["+", "-"], ["*", "/", "%"]]

/-- A truth value as a number. -/
def truth (b : Bool) : Int :=
  if b then 1 else 0

/-- The value of an operator; nothing for a division by zero. -/
def operate (symbol : String) (a b : Int) : Option Int :=
  match symbol with
  | "||" => some (truth (a != 0 || b != 0))
  | "&&" => some (truth (a != 0 && b != 0))
  | "==" => some (truth (a == b))
  | "!=" => some (truth (a != b))
  | "<=" => some (truth (a ≤ b))
  | ">=" => some (truth (b ≤ a))
  | "<" => some (truth (a < b))
  | ">" => some (truth (b < a))
  | "+" => some (a + b)
  | "-" => some (a - b)
  | "*" => some (a * b)
  | "/" => if b = 0 then none else some (a.tdiv b)
  | _ => if b = 0 then none else some (a.tmod b)

/-- An operator of a level at the front of a text. -/
def operatorAt? (level : List String) (text : List Char) : Option (String × List Char) :=
  level.findSome? fun symbol =>
    if symbol.toList.isPrefixOf text then some (symbol, text.drop symbol.length) else none

/-- The text without the blanks at its front. -/
def skipBlanks (text : List Char) : List Char :=
  text.dropWhile fun c => c == ' ' || c == '\t' || c == '\n'

mutual

/-- The value of an expression of the given levels at the front of a text, and what follows it. -/
def evaluate (value : String → Int) : (fuel : Nat) → List (List String) → List Char →
    Option (Int × List Char)
  | 0, _, _ => none
  | fuel + 1, [], text =>
    match skipBlanks text with
    | '(' :: rest => do
      let (v, rest) ← evaluate value fuel operatorLevels rest
      match skipBlanks rest with
      | ')' :: rest => some (v, rest)
      | _ => none
    | '-' :: rest => (evaluate value fuel [] rest).map fun p => (-p.1, p.2)
    | '+' :: rest => evaluate value fuel [] rest
    | '!' :: rest => (evaluate value fuel [] rest).map fun p => (truth (p.1 == 0), p.2)
    | text =>
      let run := text.takeWhile isNameChar
      let rest := text.dropWhile isNameChar
      match run with
      | [] => none
      | c :: _ =>
        if isNameStart c then some (value (String.ofList run), rest)
        else (String.ofList run).toNat?.map fun n => ((n : Int), rest)
  | fuel + 1, level :: tighter, text => do
    let (a, rest) ← evaluate value fuel tighter text
    evaluateFrom value fuel level tighter a rest

/-- The value of a chain of operators of one level after its first operand. -/
def evaluateFrom (value : String → Int) : (fuel : Nat) → List String → List (List String) → Int →
    List Char → Option (Int × List Char)
  | 0, _, _, _, _ => none
  | fuel + 1, level, tighter, a, text =>
    match operatorAt? level (skipBlanks text) with
    | none => some (a, text)
    | some (symbol, rest) => do
      let (b, rest) ← evaluate value fuel tighter rest
      evaluateFrom value fuel level tighter (← operate symbol a b) rest

end

/-- The value of an arithmetic expression; nothing if it is none. -/
def arithmeticValue? (value : String → Int) (text : List Char) : Option Int :=
  match skipBlanks text with
  | [] => some 0
  | text =>
    match evaluate value (16 * text.length + 16) operatorLevels text with
    | some (v, rest) => if (skipBlanks rest).isEmpty then some v else none
    | none => none

/-! ### Fields -/

/-- Fields under construction; the last one may be open. -/
structure Fields where
  done : List String := []
  current : Option (List Char) := none

/-- Appends text to the open field. -/
def Fields.append (f : Fields) (text : List Char) : Fields :=
  { f with current := some (f.current.getD [] ++ text) }

/-- Closes the open field. -/
def Fields.close (f : Fields) : Fields :=
  match f.current with
  | some text => { done := f.done ++ [String.ofList text], current := none }
  | none => f

/-- Appends text that is split at blanks. -/
def Fields.split (f : Fields) (text : List Char) : Fields :=
  text.foldl (fun f c => if c == ' ' || c == '\t' || c == '\n' then f.close else f.append [c]) f

/-- Appends several fields, the first to the open one. -/
def Fields.appendAll (f : Fields) (texts : List String) : Fields :=
  match texts with
  | [] => f
  | first :: rest =>
    rest.foldl (fun f text => f.close.append text.toList) (f.append first.toList)

/-- Appends the value of a piece. -/
def Fields.value (f : Fields) (quoted : Bool) (text : List Char) : Fields :=
  if quoted then f.append text else f.split text

/-- Runs the lines of a script one after another.  A fault ends the shell. -/
def runScript (run : Runner) (script : List Char) : Run := do
  let (lines, fault) := readLines script
  let flow ← runLines lines
  match flow, fault with
  | .next, some fault =>
    modify fun m => { m with line := fault.line, status := misuseStatus }
    complain fault.message
    return .leave
  | flow, _ => return flow
where
  runLines : List Command → Run
    | [] => return .next
    | c :: rest => do
      match ← run c with
      | .next => runLines rest
      | flow => return flow

/-- The output of a script, without the line ends at its end. -/
def outputOf (run : Runner) (script : List Char) : StateM Machine (List Char) := do
  let before ← get
  let sink := Sink.pipe before.issued
  set { before with issued := before.issued + 1, writes := [], out := sink }
  let _ ← inSubshell (runScript run script)
  let after ← get
  let bytes := (after.collected sink none).flatMap Prod.snd
  set { after with
    out := before.out, writes := after.writes.filter (fun (w : Write) => w.sink ≠ sink) ++ before.writes }
  return ((Text.Utf8.decodeLossy bytes).reverse.dropWhile (· == '\n')).reverse

/-- The value of a parameter in braces: its length, or a default for it. -/
def bracedValue (m : Machine) (name : String) : String :=
  match name.toList with
  | '#' :: c :: rest => toString ((m.parameter? (String.ofList (c :: rest))).getD "").length
  | text =>
    let base := text.takeWhile isNameChar
    let value := m.parameter? (String.ofList base)
    match text.drop base.length with
    | ':' :: '-' :: fallback =>
      if (value.getD "") == "" then String.ofList fallback else value.getD ""
    | '-' :: fallback => value.getD (String.ofList fallback)
    | _ => (m.parameter? name).getD ""

/-- Appends a piece to the fields. -/
def expandPiece (run : Runner) (f : Fields) (piece : Piece) : StateM Machine Fields := do
  let m ← get
  match piece with
  | .literal text _ => return f.append text
  | .parameter "@" true => return f.appendAll m.args
  | .parameter name quoted => return f.value quoted (bracedValue m name).toList
  | .output script quoted => return f.value quoted (← outputOf run script)
  | .arithmetic expression quoted =>
    let dollarless := expression.filter (· != '$')
    let value := fun name => (numberArgument ((m.parameter? name).getD "0")).1
    match arithmeticValue? value dollarless with
    | some v => return f.value quoted (toString v).toList
    | none =>
      complain ("arithmetic expression: expecting primary: \"" ++ String.ofList expression ++ "\"")
      return f

/-- The fields of a word. -/
def expandWord (run : Runner) (w : Word) : StateM Machine (List String) := do
  let mut f : Fields := {}
  for piece in w do
    f ← expandPiece run f piece
  return f.close.done

/-- The fields of words. -/
def expandWords (run : Runner) (words : List Word) : StateM Machine (List String) := do
  let mut fields := []
  for w in words do
    fields := fields ++ (← expandWord run w)
  return fields

/-- A word as one text. -/
def expandText (run : Runner) (w : Word) : StateM Machine String := do
  return " ".intercalate (← expandWord run w)

end AnalyzerBridge.Shell
