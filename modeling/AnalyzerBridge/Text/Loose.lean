/-
Texts that may hold unpaired surrogates.

A JSON string can spell a surrogate code unit that belongs to no pair.  Such a
string is no Unicode text, yet a message may be one, so messages are lists of
glyphs: characters and lone units.  `LooseText.ofString` embeds the proper
texts, and `toString?` is its partial inverse.  Where a string is wanted all the
same, `replaced` puts the replacement character for a lone unit: like it, that
character is no letter, digit, blank, bracket or line break.
-/

namespace AnalyzerBridge

/-- One element of a message: a character, or a surrogate unit that no partner completes. -/
inductive Glyph where
  | char (c : Char)
  | lone (surrogate : Nat)
  deriving DecidableEq, Inhabited

/-- A text that may hold unpaired surrogates. -/
abbrev LooseText := List Glyph

/-- The character of a glyph; the replacement character stands for a lone unit. -/
def Glyph.replaced : Glyph → Char
  | .char c => c
  | .lone _ => '\uFFFD'

namespace LooseText

/-- A proper text as a loose one. -/
def ofString (s : String) : LooseText :=
  s.toList.map .char

instance : Coe String LooseText := ⟨ofString⟩

/-- The characters, if every glyph is one. -/
def toChars? (t : LooseText) : Option (List Char) :=
  t.mapM fun g => match g with
    | .char c => some c
    | .lone _ => none

/-- The text as a string, if it holds no lone surrogate. -/
def toString? (t : LooseText) : Option String :=
  (toChars? t).map String.ofList

/-- The text as a string of as many characters. -/
def replaced (t : LooseText) : String :=
  String.ofList (t.map Glyph.replaced)

/-- A leading surrogate unit, the first of a pair. -/
def isHigh (unit : Nat) : Bool :=
  0xD800 ≤ unit && unit < 0xDC00

/-- A trailing surrogate unit, the second of a pair. -/
def isLow (unit : Nat) : Bool :=
  0xDC00 ≤ unit && unit < 0xE000

/-- The character that a pair of surrogate units stands for. -/
def joinPair (high low : Nat) : Char :=
  Char.ofNat (0x10000 + (high - 0xD800) * 0x400 + (low - 0xDC00))

/-- Appends a UTF-16 code unit to a text kept in reverse: a trailing unit completes a leading one
that directly precedes it. -/
def pushUnit (reversed : LooseText) (unit : Nat) : LooseText :=
  if isLow unit then
    match reversed with
    | .lone h :: rest => if isHigh h then .char (joinPair h unit) :: rest else .lone unit :: reversed
    | _ => .lone unit :: reversed
  else if isHigh unit then .lone unit :: reversed
  else .char (Char.ofNat unit) :: reversed

end LooseText

end AnalyzerBridge
