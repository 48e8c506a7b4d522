/-
The lexemes of a shell script.

`lexemes` cuts a script into words, operators and redirections, each with its
line.  Quotation is resolved here; what stands for a value stays in the word.

Design notes: the fuel of each reader is the length of the text, which is enough
because every round takes at least one character.

Support for runs: nothing is proved about this module, and no proof rests on it.
-/
import AnalyzerBridge.Shell.Syntax
import AnalyzerBridge.Text.Digit

namespace AnalyzerBridge.Shell

/-- The direction of a redirection. -/
inductive Direction where
  | input
  | output
  | duplication
  deriving DecidableEq

/-- A lexeme. -/
inductive Lexeme where
  | word (w : Word)
  | operator (symbol : String)
  | redirection (descriptor : Nat) (direction : Direction)
  deriving DecidableEq

/-- A lexeme with its line. -/
abbrev Placed := Nat × Lexeme

/-- A letter or an underscore. -/
def isNameStart (c : Char) : Bool :=
  c.isAlpha || c == '_'

/-- A letter, a digit or an underscore. -/
def isNameChar (c : Char) : Bool :=
  c.isAlphanum || c == '_'

/-- A character that ends a word. -/
def endsWord (c : Char) : Bool :=
  " \t\n;&|()<>".toList.contains c

/-- A character that names a parameter by itself. -/
def isSpecialParameter (c : Char) : Bool :=
  "@*#?$!".toList.contains c || Text.isAsciiDigit c

/-- The text up to the parenthesis that closes a group, and what follows it.  Quoted parentheses do not
count. -/
def takeGroup : (quote : Option Char) → (depth : Nat) → List Char → Option (List Char × List Char)
  | _, _, [] => none
  | some '\'', depth, c :: rest =>
    (takeGroup (if c = '\'' then none else some '\'') depth rest).map fun p => (c :: p.1, p.2)
  | quote, depth, '\\' :: c :: rest =>
    (takeGroup quote depth rest).map fun p => ('\\' :: c :: p.1, p.2)
  | some q, depth, c :: rest =>
    (takeGroup (if c = q then none else some q) depth rest).map fun p => (c :: p.1, p.2)
  | none, depth, c :: rest =>
    if c = '\'' || c = '"' then (takeGroup (some c) depth rest).map fun p => (c :: p.1, p.2)
    else if c = '(' then (takeGroup none (depth + 1) rest).map fun p => (c :: p.1, p.2)
    else if c = ')' then
      match depth with
      | 0 => some ([], rest)
      | depth + 1 => (takeGroup none depth rest).map fun p => (c :: p.1, p.2)
    else (takeGroup none depth rest).map fun p => (c :: p.1, p.2)

/-- The text between double parentheses, if a group is one. -/
def arithmeticBody? (group : List Char) : Option (List Char) :=
  match group, group.getLast? with
  | '(' :: body, some ')' => some body.dropLast
  | _, _ => none

/-- The piece after a dollar sign, and what follows it; nothing if the text is unterminated. -/
def readDollar (quoted : Bool) (text : List Char) : Option (Piece × List Char) :=
  match text with
  | '(' :: rest =>
    (takeGroup none 0 rest).map fun p =>
      match arithmeticBody? p.1 with
      | some body => (.arithmetic body quoted, p.2)
      | none => (.output p.1 quoted, p.2)
  | '{' :: rest =>
    match rest.dropWhile (· != '}') with
    | _ :: after => some (.parameter (String.ofList (rest.takeWhile (· != '}'))) quoted, after)
    | [] => none
  | c :: rest =>
    if isSpecialParameter c then some (.parameter (String.ofList [c]) quoted, rest)
    else if isNameStart c then
      some (.parameter (String.ofList (text.takeWhile isNameChar)) quoted,
        text.dropWhile isNameChar)
    else some (.literal ['$'] quoted, text)
  | [] => some (.literal ['$'] quoted, [])

/-- The pieces up to the closing double quote, and what follows it. -/
def readQuoted : (fuel : Nat) → List Char → Option (Word × List Char)
  | 0, _ => none
  | fuel + 1, text =>
    let continueWith := fun (piece : Piece) rest =>
      (readQuoted fuel rest).map fun p => (piece :: p.1, p.2)
    match text with
    | [] => none
    | '"' :: rest => some ([.literal [] true], rest)
    | '\\' :: '\n' :: rest => readQuoted fuel rest
    | '\\' :: c :: rest =>
      continueWith (.literal (if "$`\"\\".toList.contains c then [c] else ['\\', c]) true) rest
    | '$' :: rest => (readDollar true rest).bind fun p => continueWith p.1 p.2
    | '`' :: rest =>
      match rest.dropWhile (· != '`') with
      | _ :: after => continueWith (.output (rest.takeWhile (· != '`')) true) after
      | [] => none
    | c :: rest => continueWith (.literal [c] true) rest

/-- The pieces up to the end of a word, and what follows it; nothing if a quotation does not end. -/
def readWord : (fuel : Nat) → List Char → Option (Word × List Char)
  | 0, _ => none
  | fuel + 1, text =>
    let continueWith := fun (pieces : Word) rest =>
      (readWord fuel rest).map fun p => (pieces ++ p.1, p.2)
    match text with
    | [] => some ([], [])
    | '\\' :: '\n' :: rest => readWord fuel rest
    | '\\' :: c :: rest => continueWith [.literal [c] true] rest
    | '\'' :: rest =>
      match rest.dropWhile (· != '\'') with
      | _ :: after => continueWith [.literal (rest.takeWhile (· != '\'')) true] after
      | [] => none
    | '"' :: rest => (readQuoted rest.length.succ rest).bind fun p => continueWith p.1 p.2
    | '$' :: rest => (readDollar false rest).bind fun p => continueWith [p.1] p.2
    | '`' :: rest =>
      match rest.dropWhile (· != '`') with
      | _ :: after => continueWith [.output (rest.takeWhile (· != '`')) false] after
      | [] => none
    | c :: rest => if endsWord c then some ([], text) else continueWith [.literal [c] false] rest

/-- A redirection at the front of a text, of the given descriptor. -/
def readRedirection? (descriptor : Option Nat) (text : List Char) :
    Option (Lexeme × List Char) :=
  let output := descriptor.getD 1
  match text with
  | '>' :: '&' :: rest => some (.redirection output .duplication, rest)
  | '>' :: '>' :: rest => some (.redirection output .output, rest)
  | '>' :: '|' :: rest => some (.redirection output .output, rest)
  | '>' :: rest => some (.redirection output .output, rest)
  | '<' :: '&' :: rest => some (.redirection (descriptor.getD 0) .duplication, rest)
  | '<' :: rest => some (.redirection (descriptor.getD 0) .input, rest)
  | _ => none

/-- An operator at the front of a text. -/
def readOperator? (text : List Char) : Option (String × List Char) :=
  match text with
  | '&' :: '&' :: rest => some ("&&", rest)
  | '|' :: '|' :: rest => some ("||", rest)
  | ';' :: ';' :: rest => some (";;", rest)
  | '\n' :: rest => some ("\n", rest)
  | c :: rest => if ";&|()".toList.contains c then some (String.ofList [c], rest) else none
  | [] => none

/-- The lexemes of a text from a line on, as far as they can be read, and the line of a quotation that
does not end. -/
def lexemesFrom : (fuel line : Nat) → List Char → List Placed × Option Nat
  | 0, line, _ => ([], some line)
  | fuel + 1, line, text =>
    let continueWith := fun (lexeme : Lexeme) (rest : List Char) =>
      let taken := text.take (text.length - rest.length)
      let p := lexemesFrom fuel (line + taken.count '\n') rest
      ((line, lexeme) :: p.1, p.2)
    match text with
    | [] => ([], none)
    | ' ' :: rest => lexemesFrom fuel line rest
    | '\t' :: rest => lexemesFrom fuel line rest
    | '\\' :: '\n' :: rest => lexemesFrom fuel (line + 1) rest
    | '#' :: rest => lexemesFrom fuel line (rest.dropWhile (· != '\n'))
    | _ =>
      let digits := text.takeWhile Text.isAsciiDigit
      let numbered :=
        if digits.isEmpty then none
        else
          readRedirection? ((String.ofList digits).toNat?) (text.dropWhile Text.isAsciiDigit)
      match numbered, readRedirection? none text, readOperator? text with
      | some (lexeme, rest), _, _ => continueWith lexeme rest
      | none, some (lexeme, rest), _ => continueWith lexeme rest
      | none, none, some (symbol, rest) => continueWith (.operator symbol) rest
      | none, none, none =>
        match readWord text.length.succ text with
        | some (w, rest) => continueWith (.word w) rest
        | none => ([], some line)

/-- The lexemes of a script, as far as they can be read, and the line of a quotation that does not
end. -/
def lexemes (script : List Char) : List Placed × Option Nat :=
  lexemesFrom (script.length + 1) 1 script

/-- The text of a word that is one run of unquoted characters. -/
def plainText? (w : Word) : Option String :=
  w.foldr
    (fun piece acc =>
      match piece, acc with
      | .literal text false, some s => some (String.ofList text ++ s)
      | _, _ => none)
    (some "")

end AnalyzerBridge.Shell
