/-
The built-in symbols of the contract language.

`wordAt` finds the identifier at a cursor, `hover?` explains it, and
`completions` lists what a client may offer.

Design notes: identifiers are ASCII.  The cursor must stand inside an identifier
or directly after it; digits in front of its first letter are no part of it.
-/
import AnalyzerBridge.Service.Position
import AnalyzerBridge.Text.Word

namespace AnalyzerBridge.Symbol

/-- The part of an identifier that ends a text: the longest run of word characters at its end, less
the digits in front. -/
def wordBefore (text : List Char) : List Char :=
  (text.reverse.takeWhile Text.isAsciiWordChar).reverse.dropWhile Text.isAsciiDigit

/-- The identifier at an offset, which is moved into the text. -/
def wordAt (text : List Char) (offset : Int) : Option (List Char) :=
  let o := clampOffset text.length offset
  match wordBefore (text.take o) with
  | [] => none
  | front => some (front ++ (text.drop o).takeWhile Text.isAsciiWordChar)

/-- The explanations of the symbols. -/
def explanations : List (String × String) := [
  ("HEIGHT", "**HEIGHT**: Int\n\nCurrent blockchain height"),
  ("SELF", "**SELF**: Box\n\nThe box being spent by this transaction"),
  ("INPUTS",
    "**INPUTS**: Coll[Box]\n\nCollection of all input boxes of the spending transaction"),
  ("OUTPUTS",
    "**OUTPUTS**: Coll[Box]\n\nCollection of all output boxes of the spending transaction"),
  ("CONTEXT", "**CONTEXT**: Context\n\nThe context of the current transaction"),
  ("Global", "**Global**: Global\n\nGlobal functions and constants"),
  ("sigmaProp", "**sigmaProp**(condition: Boolean): SigmaProp\n\nConverts boolean to SigmaProp"),
  ("proveDlog",
    "**proveDlog**(value: GroupElement): SigmaProp\n\nCreates a sigma proposition for discrete log proof"),
  ("blake2b256",
    "**blake2b256**(input: Coll[Byte]): Coll[Byte]\n\nBlake2b 256-bit hash function"),
  ("sha256", "**sha256**(input: Coll[Byte]): Coll[Byte]\n\nSHA-256 hash function"),
  ("Box", "**Box**\n\nRepresents a box (UTXO) in Ergo blockchain"),
  ("SigmaProp", "**SigmaProp**\n\nSigma proposition that can be proven via zero-knowledge proof"),
  ("GroupElement", "**GroupElement**\n\nElliptic curve point"),
  ("BigInt", "**BigInt**\n\n256-bit signed integer"),
  ("Coll", "**Coll[T]**\n\nCollection type"),
  ("AvlTree", "**AvlTree**\n\nAuthenticated AVL+ tree")]

/-- The explanation of a word. -/
def hover? (word : String) : Option String :=
  explanations.lookup word

/-- What a completion stands for. -/
inductive Kind where
  | value
  | keyword
  | function
  | type
  deriving DecidableEq

/-- The number of a kind in the protocol. -/
def Kind.number : Kind → Nat
  | .value => 6
  | .keyword => 14
  | .function => 3
  | .type => 7

/-- A completion: its label, kind, documentation, and possibly its signature and a snippet with
placeholders to insert in its place. -/
structure Completion where
  label : String
  kind : Kind
  documentation : String
  detail : Option String
  snippet : Option String

/-- The number in the protocol of texts with placeholders. -/
def snippetFormat : Nat := 2

/-- The completions, in the order in which they are offered. -/
def completions : List Completion := [
  ⟨"HEIGHT", .value, "Current blockchain height",
    some "Int", none⟩,
  ⟨"SELF", .value, "The box being spent",
    some "Box", none⟩,
  ⟨"INPUTS", .value, "Input boxes of the transaction",
    some "Coll[Box]", none⟩,
  ⟨"OUTPUTS", .value, "Output boxes of the transaction",
    some "Coll[Box]", none⟩,
  ⟨"CONTEXT", .value, "Transaction context",
    some "Context", none⟩,
  ⟨"Global", .value, "Global functions and constants",
    some "Global", none⟩,
  ⟨"val", .keyword, "Declare a value",
    none, none⟩,
  ⟨"def", .keyword, "Define a function",
    none, none⟩,
  ⟨"if", .keyword, "Conditional expression",
    none, none⟩,
  ⟨"else", .keyword, "Else branch",
    none, none⟩,
  ⟨"sigmaProp", .function, "Convert boolean to SigmaProp",
    some "(Boolean) => SigmaProp", some "sigmaProp($1)"⟩,
  ⟨"proveDlog", .function, "Create discrete log proof",
    some "(GroupElement) => SigmaProp", some "proveDlog($1)"⟩,
  ⟨"blake2b256", .function, "Blake2b 256-bit hash",
    some "(Coll[Byte]) => Coll[Byte]", some "blake2b256($1)"⟩,
  ⟨"sha256", .function, "SHA-256 hash",
    some "(Coll[Byte]) => Coll[Byte]", some "sha256($1)"⟩,
  ⟨"deserialize", .function, "Deserialize from Base64",
    some "(String) => T", some "deserialize[$1](\"$2\")"⟩,
  ⟨"Box", .type, "Box type",
    none, none⟩,
  ⟨"SigmaProp", .type, "Sigma proposition type",
    none, none⟩,
  ⟨"GroupElement", .type, "Elliptic curve point",
    none, none⟩,
  ⟨"BigInt", .type, "256-bit signed integer",
    none, none⟩,
  ⟨"Int", .type, "32-bit integer",
    none, none⟩,
  ⟨"Long", .type, "64-bit integer",
    none, none⟩,
  ⟨"Boolean", .type, "Boolean type",
    none, none⟩,
  ⟨"Coll", .type, "Collection type",
    none, some "Coll[$1]"⟩]

end AnalyzerBridge.Symbol
