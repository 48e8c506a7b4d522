/-
Reading shell scripts.

`readLines` turns a script into its lines, one command each, and tells where the
reading stopped if a line is no command; the lines before a fault still run.

Design notes: precedence, from loose to tight: lists, `&&` and `||` alike,
negation, pipes.  The fuel is the number of lexemes and a constant for each level
of the grammar.

Support for runs: nothing is proved about this module, and no proof rests on it.
-/
import AnalyzerBridge.Shell.Lexeme

namespace AnalyzerBridge.Shell

/-- A reading of lexemes: it knows the last line of the script and takes lexemes from the front. -/
abbrev Reading := ReaderT Nat (StateT (List Placed) (Except SyntaxFault))

/-- The words that only count as such where no command can start. -/
def reservedWords : List String :=
  ["if", "then", "else", "elif", "fi", "do", "done", "while", "until", "for", "in", "\x7b", "\x7d",
    "!"]

/-- The words that end a list of commands. -/
def closingWords : List String := ["then", "else", "elif", "fi", "do", "done", "\x7d"]

/-- How a lexeme is quoted in a fault. -/
def Lexeme.shown : Lexeme → String
  | .operator "\n" => "newline"
  | .operator symbol => symbol
  | .redirection _ .output => "redirection"
  | .redirection _ _ => "redirection"
  | .word w => if (plainText? w).any reservedWords.contains then (plainText? w).getD "" else "word"

/-- Refuses what stands at the front, saying what is expected if that is known. -/
def refuse {α : Type} (expected : Option String) : Reading α := do
  match ← get with
  | [] => throw (.unexpected (← read) none expected)
  | (line, lexeme) :: _ => throw (.unexpected line (some lexeme.shown) expected)

/-- The reserved word at the front. -/
def reserved? (input : List Placed) : Option String :=
  match input with
  | (_, .word w) :: _ => (plainText? w).filter reservedWords.contains
  | _ => none

/-- The front is no place for a command: the end, a closing word or an operator other than an opening
parenthesis. -/
def startsNoCommand (input : List Placed) : Bool :=
  match input with
  | [] => true
  | (_, .operator symbol) :: _ => symbol != "("
  | _ => (reserved? input).any closingWords.contains

/-- The lexemes without the line ends at the front. -/
def withoutLineEnds (input : List Placed) : List Placed :=
  input.dropWhile fun p => p.2 == .operator "\n"

/-- Skips the line ends at the front. -/
def skipLineEnds : Reading Unit :=
  modify withoutLineEnds

/-- Takes one lexeme. -/
def advance : Reading Unit :=
  modify (List.drop 1)

/-- The operator at the front. -/
def operator? (input : List Placed) : Option String :=
  match input with
  | (_, .operator symbol) :: _ => some symbol
  | _ => none

/-- Takes a reserved word. -/
def expectWord (name : String) : Reading Unit := do
  if reserved? (← get) == some name then advance else refuse (some name)

/-- The assignment that a word is. -/
def assignment? (w : Word) : Option (String × Word) :=
  let front := w.takeWhile fun piece => match piece with
    | .literal [c] false => isNameChar c
    | _ => false
  match w.drop front.length, front with
  | .literal ['='] false :: value, .literal [c] false :: _ =>
    if isNameStart c then
      some (String.ofList (front.flatMap fun piece => match piece with
        | .literal text _ => text
        | _ => []), value)
    else none
  | _, _ => none

/-- A redirection with its target. -/
def redirection (descriptor : Nat) (direction : Direction) (target : Word) : Redirection :=
  match direction with
  | .duplication => .duplicate descriptor target
  | .output => .write descriptor target
  | .input => .read target

/-- The words and redirections at the front, words only if they are wanted. -/
def takeParts (wordsToo : Bool) : List Placed → (List Word × List Redirection) × List Placed
  | (_, .redirection n direction) :: (_, .word w) :: rest =>
    let p := takeParts wordsToo rest
    ((p.1.1, redirection n direction w :: p.1.2), p.2)
  | (line, .word w) :: rest =>
    if wordsToo then
      let p := takeParts wordsToo rest
      ((w :: p.1.1, p.1.2), p.2)
    else (([], []), (line, .word w) :: rest)
  | input => (([], []), input)

/-- Reads words and redirections.  A redirection needs a target. -/
def readParts (wordsToo : Bool) : Reading (List Word × List Redirection) := do
  let p := takeParts wordsToo (← get)
  set p.2
  match p.2 with
  | (_, .redirection _ _) :: rest =>
    set rest
    refuse none
  | _ => return p.1

/-- A command with redirections, if there are any. -/
def withRedirections (line : Nat) (body : Command) (rs : List Redirection) : Command :=
  if rs.isEmpty then body else .redirected line body rs

/-- A simple command: assignments in front of its words. -/
def readSimple (line : Nat) : Reading Command := do
  let (words, rs) ← readParts true
  if words.length == 1 && operator? (← get) == some "(" then
    advance
    refuse (some ")")
  let assignments := (words.map assignment?).takeWhile Option.isSome
  return withRedirections line
    (.simple line (assignments.filterMap id) (words.drop assignments.length)) rs

/-- The words of a loop over words; without any it runs over the arguments. -/
def readLoopWords : Reading (List Word) := do
  if reserved? (withoutLineEnds (← get)) == some "in" then
    skipLineEnds
    advance
    return (← readParts true).1
  else return [[.parameter "@" true]]

mutual

/-- A list of commands, up to something that starts none. -/
def readList : (fuel : Nat) → Reading Command
  | 0 => refuse none
  | fuel + 1 => do
    skipLineEnds
    let input ← get
    if startsNoCommand input then
      if (operator? input).any (· != ")") then refuse none else return .skip
    else
      let first ← readAndOr fuel
      match operator? (← get) with
      | some ";" | some "\n" =>
        advance
        return .sequence first (← readList fuel)
      | some "&" =>
        advance
        return .sequence (.background first) (← readList fuel)
      | _ => return first

/-- A list of commands that may not be empty, except before the end of the script. -/
def readBody : (fuel : Nat) → Reading Command
  | 0 => refuse none
  | fuel + 1 => do
    skipLineEnds
    let input ← get
    if !input.isEmpty && startsNoCommand input then refuse none else readList fuel

/-- Pipes joined by `&&` and `||`. -/
def readAndOr : (fuel : Nat) → Reading Command
  | 0 => refuse none
  | fuel + 1 => do readAndOrFrom fuel (← readPipe fuel)

/-- The rest of a chain of `&&` and `||` after its first part. -/
def readAndOrFrom : (fuel : Nat) → Command → Reading Command
  | 0, _ => refuse none
  | fuel + 1, first => do
    match operator? (← get) with
    | some "&&" =>
      advance
      skipLineEnds
      readAndOrFrom fuel (.andThen first (← readPipe fuel))
    | some "||" =>
      advance
      skipLineEnds
      readAndOrFrom fuel (.orElse first (← readPipe fuel))
    | _ => return first

/-- Commands joined by pipes, possibly negated. -/
def readPipe : (fuel : Nat) → Reading Command
  | 0 => refuse none
  | fuel + 1 => do
    if reserved? (← get) == some "!" then
      advance
      return .negated (← readPipe fuel)
    else
      let left ← readCommand fuel
      if operator? (← get) == some "|" then
        advance
        skipLineEnds
        return .pipe left (← readPipe fuel)
      else return left

/-- One command. -/
def readCommand : (fuel : Nat) → Reading Command
  | 0 => refuse none
  | fuel + 1 => do
    let input ← get
    let line := (input.head?.map Prod.fst).getD (← read)
    if startsNoCommand input then refuse none
    else
      match operator? input, reserved? input with
      | none, none => readSimple line
      | none, some name =>
        advance
        let body ← readCompound fuel name
        return withRedirections line body (← readParts false).2
      | some _, _ =>
        advance
        let body ← readBody fuel
        if operator? (← get) == some ")" then advance else refuse (some ")")
        return withRedirections line (.subshell body) (← readParts false).2

/-- A compound command after the reserved word that opens it. -/
def readCompound : (fuel : Nat) → (opening : String) → Reading Command
  | 0, _ => refuse none
  | fuel + 1, opening => do
    match opening with
    | "\x7b" =>
      let body ← readBody fuel
      expectWord "\x7d"
      return body
    | "if" => readBranch fuel
    | "while" => readLoop fuel true
    | "until" => readLoop fuel false
    | "for" =>
      let name ← match ← get with
        | (_, .word name) :: _ => pure ((plainText? name).getD "")
        | _ => refuse none
      advance
      let words ← readLoopWords
      if operator? (← get) == some ";" then advance
      skipLineEnds
      return .each name words (← readDo fuel)
    | _ => refuse none

/-- The body of a loop between its two words. -/
def readDo : (fuel : Nat) → Reading Command
  | 0 => refuse none
  | fuel + 1 => do
    expectWord "do"
    let body ← readBody fuel
    expectWord "done"
    return body

/-- A branch after its opening word. -/
def readBranch : (fuel : Nat) → Reading Command
  | 0 => refuse none
  | fuel + 1 => do
    let condition ← readBody fuel
    expectWord "then"
    let whenTrue ← readBody fuel
    match reserved? (← get) with
    | some "elif" =>
      advance
      return .branch condition whenTrue (← readBranch fuel)
    | some "else" =>
      advance
      let whenFalse ← readBody fuel
      expectWord "fi"
      return .branch condition whenTrue whenFalse
    | _ =>
      expectWord "fi"
      return .branch condition whenTrue .skip

/-- A loop after its opening word. -/
def readLoop : (fuel : Nat) → (expected : Bool) → Reading Command
  | 0, _ => refuse none
  | fuel + 1, expected => do
    let condition ← readBody fuel
    return .loop expected condition (← readDo fuel)

end

/-- The commands up to the end of a line. -/
def readLine : (fuel : Nat) → Reading Command
  | 0 => refuse none
  | fuel + 1 => do
    let first ← readAndOr (16 * (← get).length + 16)
    let finished := fun (c : Command) => do
      match ← get with
      | [] => return c
      | (_, .operator "\n") :: _ =>
        advance
        return c
      | _ => return .sequence c (← readLine fuel)
    match ← get with
    | [] => return first
    | (_, .operator "\n") :: _ => finished first
    | (_, .operator ";") :: _ =>
      advance
      finished first
    | (_, .operator "&") :: _ =>
      advance
      finished (.background first)
    | _ => refuse none

/-- The commands of one line after another, and the fault that ends the reading.  Where a quotation does
not end, that is the fault of its line. -/
def readLinesFrom (lastLine : Nat) (quotation : Option Nat) :
    (fuel : Nat) → List Placed → List Command × Option SyntaxFault
  | 0, _ => ([], none)
  | fuel + 1, input =>
    let input := withoutLineEnds input
    let openQuotation := quotation.map SyntaxFault.unterminated
    if input.isEmpty then ([], openQuotation)
    else
      match ((readLine (input.length + 1)).run lastLine).run input with
      | .error (.unexpected line none expected) =>
        ([], openQuotation <|> some (.unexpected line none expected))
      | .error f => ([], some f)
      | .ok (c, rest) =>
        if rest.isEmpty && quotation.isSome then ([], openQuotation)
        else
          let p := readLinesFrom lastLine quotation fuel rest
          (c :: p.1, p.2)

/-- The lines of a script, and the fault that ends the reading. -/
def readLines (script : List Char) : List Command × Option SyntaxFault :=
  let p := lexemes script
  readLinesFrom (script.count '\n' + 1) p.2 (p.1.length + 1) p.1

end AnalyzerBridge.Shell
