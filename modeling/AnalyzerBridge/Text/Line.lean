/-
Lines of a text.

`lines` keeps every terminator at the end of its line, so the lines concatenate
to the text; `bareLines` drops the terminators; `unifyNewlines` reads the three
newline spellings as one.

Design notes: ten characters end a line, and a carriage return followed by a
line feed is one terminator.  Everything is a right fold, because a text can be
long.
-/

namespace AnalyzerBridge.Text

/-- A character that ends a line. -/
def isLineBreak (c : Char) : Bool :=
  let n := c.toNat
  (0x0A ≤ n && n ≤ 0x0D) || (0x1C ≤ n && n ≤ 0x1E) || n == 0x85 || n == 0x2028 || n == 0x2029

/-- Puts a character before the lines of the text that follows it: a terminator opens a line of
its own, except a carriage return before a line feed, which joins it. -/
def consLine (c : Char) (following : List (List Char)) : List (List Char) :=
  match following with
  | [] => [[c]]
  | line :: rest =>
    if isLineBreak c && !(c == '\r' && line.head? == some '\n') then [c] :: line :: rest
    else (c :: line) :: rest

/-- The lines of a text, each with its terminator. -/
def lines (text : List Char) : List (List Char) :=
  text.foldr consLine []

/-- The lines of a text without their terminators. -/
def bareLines (text : List Char) : List (List Char) :=
  (lines text).map fun line => line.filter fun c => !isLineBreak c

/-- Puts a character before a text whose newlines are unified already, `after` telling whether the
text came with a line feed in front. -/
def unifyStep (c : Char) (acc : List Char × Bool) : List Char × Bool :=
  if c == '\r' then (if acc.2 then acc.1 else '\n' :: acc.1, false)
  else (c :: acc.1, c == '\n')

/-- The text with `\r\n` and a lone `\r` both read as `\n`. -/
def unifyNewlines (text : List Char) : List Char :=
  (text.foldr unifyStep ([], false)).1

end AnalyzerBridge.Text
