/-
The command language of the shell.

A `Word` is a list of pieces, each literal or replaced when the word is used; a
`Command` is a simple command or is put together from others.

Design notes: every construct with several parts is binary, so that a command is
an ordinary inductive type.

Support for runs: nothing is proved about this module, and no proof rests on it.
-/

namespace AnalyzerBridge.Shell

/-- A piece of a word.  What is quoted is not split into fields. -/
inductive Piece where
  | literal (text : List Char) (quoted : Bool)
  | parameter (name : String) (quoted : Bool)
  | output (script : List Char) (quoted : Bool)
  | arithmetic (expression : List Char) (quoted : Bool)
  deriving DecidableEq

/-- A word of a command. -/
abbrev Word := List Piece

/-- Where a redirection leads. -/
inductive Redirection where
  | duplicate (descriptor : Nat) (source : Word)
  | write (descriptor : Nat) (file : Word)
  | read (file : Word)
  deriving DecidableEq

/-- A command.  A simple command knows its line. -/
inductive Command where
  | skip
  | simple (line : Nat) (assignments : List (String × Word)) (words : List Word)
  | redirected (line : Nat) (body : Command) (redirections : List Redirection)
  | subshell (body : Command)
  | branch (condition whenTrue whenFalse : Command)
  | loop (expected : Bool) (condition body : Command)
  | each (name : String) (words : List Word) (body : Command)
  | pipe (left right : Command)
  | negated (body : Command)
  | andThen (left right : Command)
  | orElse (left right : Command)
  | sequence (first second : Command)
  | background (body : Command)

/-- Why a script cannot be read: a quotation that does not end, or something unexpected at a line,
possibly with what is expected in its place. -/
inductive SyntaxFault where
  | unterminated (line : Nat)
  | unexpected (line : Nat) (found : Option String) (expected : Option String)

/-- The line of a fault. -/
def SyntaxFault.line : SyntaxFault → Nat
  | .unterminated line => line
  | .unexpected line _ _ => line

/-- The wording of a fault. -/
def SyntaxFault.message : SyntaxFault → String
  | .unterminated _ => "Syntax error: Unterminated quoted string"
  | .unexpected _ found expected =>
    "Syntax error: " ++ ((found.map fun s => "\"" ++ s ++ "\"").getD "end of file") ++ " unexpected" ++
      ((expected.map fun s => " (expecting \"" ++ s ++ "\")").getD "")

/-- The status of a script that cannot be read, and of a misused builtin. -/
def misuseStatus : Nat := 2

end AnalyzerBridge.Shell
