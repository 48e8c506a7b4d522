/-
Quoted texts.

`quoted` writes a text between quotes so that it can be read on one line: the
quote is the apostrophe, unless the text holds an apostrophe and no double
quote; the quote and the backslash are escaped, tab, newline and carriage return
have their letters, and any other character that is not printable is written as
its code point in two, four or eight hexadecimal digits.
-/
import AnalyzerBridge.Text.Loose
import AnalyzerBridge.Text.Printable

namespace AnalyzerBridge.Text

/-- The hexadecimal digits of a number, lower case, padded with zeros to a width. -/
def hexPadded (width n : Nat) : String :=
  let digits := Nat.toDigits 16 n
  String.ofList (List.replicate (width - digits.length) '0' ++ digits)

/-- The escape of a code point that is not shown as itself. -/
def escapeCode (n : Nat) : String :=
  if n < 0x100 then "\\x" ++ hexPadded 2 n
  else if n < 0x10000 then "\\u" ++ hexPadded 4 n
  else "\\U" ++ hexPadded 8 n

/-- One glyph inside quotes. -/
def quotedGlyph (quote : Char) : Glyph → String
  | .lone u => escapeCode u
  | .char c =>
    if c == quote || c == '\\' then String.ofList ['\\', c]
    else if c == '\t' then "\\t"
    else if c == '\n' then "\\n"
    else if c == '\r' then "\\r"
    else if isPrintable c then String.singleton c
    else escapeCode c.toNat

/-- The quote that a text is put in. -/
def quoteFor (t : LooseText) : Char :=
  if t.contains (.char '\'') && !t.contains (.char '"') then '"' else '\''

/-- A loose text between quotes. -/
def quotedLoose (t : LooseText) : String :=
  let q := quoteFor t
  String.singleton q ++ String.join (t.map (quotedGlyph q)) ++ String.singleton q

/-- A text between quotes. -/
def quoted (s : String) : String :=
  quotedLoose (LooseText.ofString s)

end AnalyzerBridge.Text
