/-
Blank characters, and the two operations on texts that depend on them.

* `strip` removes the blanks at both ends;
* `words` cuts at runs of blanks.

Design notes: a text under analysis is a list of characters, so an offset is a
position in the list.  The set of blanks is the Unicode white space together
with the four information separators U+001C to U+001F; zero-width characters
are not in it.
-/

namespace AnalyzerBridge.Text

/-- A blank separates words and is dropped at the ends of a line. -/
def isBlank (c : Char) : Bool :=
  let n := c.toNat
  (0x09 ≤ n && n ≤ 0x0D) || (0x1C ≤ n && n ≤ 0x20) || n == 0x85 || n == 0xA0 || n == 0x1680 ||
    (0x2000 ≤ n && n ≤ 0x200A) || n == 0x2028 || n == 0x2029 || n == 0x202F || n == 0x205F ||
    n == 0x3000

/-- The text without the characters satisfying `p` at its two ends. -/
def trimBoth (p : Char → Bool) (text : List Char) : List Char :=
  ((text.dropWhile p).reverse.dropWhile p).reverse

/-- The text without the blanks at its two ends. -/
def strip (text : List Char) : List Char :=
  trimBoth isBlank text

/-- The maximal runs of characters that are not blank, in order. -/
def words (text : List Char) : List (List Char) :=
  (text.splitBy fun a b => isBlank a == isBlank b).filter fun run => run.any fun c => !isBlank c

/-- The string without the blanks at its two ends. -/
def stripString (s : String) : String :=
  String.ofList (strip s.toList)

end AnalyzerBridge.Text
