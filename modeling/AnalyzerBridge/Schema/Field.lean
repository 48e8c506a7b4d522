/-
Reading the parts of a record from loosely typed values.

A reader turns a value into what a field holds, or complains.  Truth values may
be spelled as numbers or words, integers as truth values, whole floating-point
numbers or numerals; texts are taken as they are.

`requiredField` and `fieldOr` apply a reader to a field of a table, and the problems of several
fields are collected in order by `both` and `also`.
-/
import AnalyzerBridge.Schema.Numeral

namespace AnalyzerBridge.Schema

/-- The outcome of reading a value: what was read, or every problem found. -/
abbrev Checked (α : Type) := Except (List Problem) α

/-- A way to read a value. -/
abbrev Reader (α : Type) := Value → Checked α

/-- The value itself is what the complaint is about. -/
def complain {α : Type} (c : Complaint) (v : Value) : Checked α :=
  .error [⟨[], c, v⟩]

/-- Reads two things and keeps the problems of both. -/
def both {α β γ : Type} (f : α → β → γ) (a : Checked α) (b : Checked β) : Checked γ :=
  match a, b with
  | .ok x, .ok y => .ok (f x y)
  | .error p, .ok _ => .error p
  | .ok _, .error q => .error q
  | .error p, .error q => .error (p ++ q)

/-- Supplies the next field of a record under construction. -/
def also {α β : Type} (f : Checked (α → β)) (a : Checked α) : Checked β :=
  both (fun g x => g x) f a

/-- Places the problems of a part under the step that leads to it. -/
def within {α : Type} (step : Step) (r : Checked α) : Checked α :=
  r.mapError fun problems => problems.map (Problem.within step)

/-- Reads a text, unpaired surrogates included. -/
def readText : Reader LooseText
  | .text s => .ok (LooseText.ofString s)
  | .loose t => .ok t
  | v => complain .notText v

/-- The words for true and for false, in lower case. -/
def trueWords : List String := ["1", "on", "t", "true", "y", "yes"]

/-- The words for false, in lower case. -/
def falseWords : List String := ["0", "off", "f", "false", "n", "no"]

/-- The bound of the range of 64 bits: two to the 63rd. -/
def wordBound : Int := 9223372036854775808

/-- The whole numbers strictly inside the range of 64 bits, which a floating-point number may stand for. -/
def inWordRange (i : Int) : Bool :=
  -wordBound < i && i < wordBound

/-- Reads a truth value: one itself, the number 0 or 1, or a word for it. -/
def readBool : Reader Bool
  | .bool b => .ok b
  | .int i =>
    if i = 0 then .ok false
    else if i = 1 then .ok true
    else complain (if -wordBound ≤ i && i < wordBound then .unreadableBool else .notBool) (.int i)
  | .float x =>
    match x.integer? with
    | some i =>
      if i = 0 then .ok false
      else if i = 1 then .ok true
      else complain (if inWordRange i then .unreadableBool else .notBool) (.float x)
    | none => complain .notBool (.float x)
  | .text s =>
    let word := String.ofList (s.toList.map Char.toLower)
    if trueWords.contains word then .ok true
    else if falseWords.contains word then .ok false
    else complain .unreadableBool (.text s)
  | .loose t => complain .notUnicode (.loose t)
  | v => complain .notBool v

/-- Reads an integer: one itself, a truth value, a whole floating-point number of word size, or a
numeral. -/
def readInteger : Reader Int
  | .int i => .ok i
  | .bool b => .ok (if b then 1 else 0)
  | .float x =>
    if !x.isFinite then complain .notFinite (.float x)
    else
      match x.integer? with
      | none => complain .fractional (.float x)
      | some i => if inWordRange i then .ok i else complain .integerTooLarge (.float x)
  | .text s => (readNumeral s).mapError fun c => [⟨[], c, .text s⟩]
  | .loose t => complain .notUnicode (.loose t)
  | v => complain .notInteger v

/-- Reads the absent value as nothing and any other by `r`. -/
def optional {α : Type} (r : Reader α) : Reader (Option α)
  | .null => .ok none
  | v => (r v).map some

/-- Reads the items of a list, the problems of an item placed under its index. -/
def readItems {α : Type} (r : Reader α) : (index : Nat) → List Value → Checked (List α)
  | _, [] => .ok []
  | index, v :: rest =>
    both List.cons (within (.index index) (r v)) (readItems r (index + 1) rest)

/-- Reads a list of items. -/
def readList {α : Type} (r : Reader α) : Reader (List α)
  | .list items => readItems r 0 items
  | v => complain .notList v

/-- Reads a field that must be there. -/
def requiredField {α : Type} (t : Table) (name : String) (r : Reader α) : Checked α :=
  within (.field name) <|
    match t.get? name with
    | some v => r v
    | none => complain .missing (.table t)

/-- Reads a field that has a default. -/
def fieldOr {α : Type} (fallback : α) (t : Table) (name : String) (r : Reader α) : Checked α :=
  match t.get? name with
  | some v => within (.field name) (r v)
  | none => .ok fallback

/-- Reads a record from a table; anything else is none. -/
def readRecord {α : Type} (record : String) (r : Table → Checked α) : Reader α
  | .table t => r t
  | v => complain (.notRecord record) v

end AnalyzerBridge.Schema
