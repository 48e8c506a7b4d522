/-
UTF-8, read strictly and read with replacement.

`piece` reads one character or one maximal ill-formed stretch from the front of
a byte string.  `decodeLossy` turns each such stretch into one U+FFFD;
`decode?` stops at the first and says where and why.  `encode` is the other
direction.

Design notes: the second byte of a sequence has a narrower range after the
leads E0, ED, F0 and F4, which rules out overlong forms, surrogates and code
points above U+10FFFF; every later byte is in 80 to BF.
-/

namespace AnalyzerBridge.Text.Utf8

/-- Why a stretch of bytes is no character. -/
inductive Reason where
  | startByte
  | continuationByte
  | endOfData
  deriving DecidableEq

/-- The wording of a reason. -/
def Reason.message : Reason → String
  | .startByte => "invalid start byte"
  | .continuationByte => "invalid continuation byte"
  | .endOfData => "unexpected end of data"

/-- The number of bytes that must follow a lead byte, the range of the first of them, and the bits
that the lead contributes. -/
def lead? (b : UInt8) : Option (Nat × UInt8 × UInt8 × Nat) :=
  if b < 0x80 then some (0, 0x80, 0xBF, b.toNat)
  else if b < 0xC2 then none
  else if b < 0xE0 then some (1, 0x80, 0xBF, b.toNat % 32)
  else if b == 0xE0 then some (2, 0xA0, 0xBF, 0)
  else if b == 0xED then some (2, 0x80, 0x9F, 13)
  else if b < 0xF0 then some (2, 0x80, 0xBF, b.toNat % 16)
  else if b == 0xF0 then some (3, 0x90, 0xBF, 0)
  else if b < 0xF4 then some (3, 0x80, 0xBF, b.toNat % 8)
  else if b == 0xF4 then some (3, 0x80, 0x8F, 4)
  else none

/-- Reads the bytes after a lead: `need` are missing, the next one lies between `lo` and `hi`,
`code` holds the bits so far and `width` counts the bytes so far. -/
def trail : (need : Nat) → (lo hi : UInt8) → (code width : Nat) → List UInt8 →
    Except Reason Char × Nat
  | 0, _, _, code, width, _ => (.ok (Char.ofNat code), width)
  | _ + 1, _, _, _, width, [] => (.error .endOfData, width)
  | need + 1, lo, hi, code, width, b :: rest =>
    if lo ≤ b && b ≤ hi then trail need 0x80 0xBF (code * 64 + b.toNat % 64) (width + 1) rest
    else (.error .continuationByte, width)

/-- Reads the character or the maximal ill-formed stretch that starts with `b`, and its width. -/
def piece (b : UInt8) (rest : List UInt8) : Except Reason Char × Nat :=
  match lead? b with
  | none => (.error .startByte, 1)
  | some (need, lo, hi, code) => trail need lo hi code 1 rest

/-- The replacement character. -/
def replacement : Char := Char.ofNat 0xFFFD

/-- Reads bytes in front of which `reversed` has been read already. -/
def decodeLossyFrom (reversed : List Char) : List UInt8 → List Char
  | [] => reversed.reverse
  | b :: rest =>
    match piece b rest with
    | (.ok c, width) => decodeLossyFrom (c :: reversed) (rest.drop (width - 1))
    | (.error _, width) => decodeLossyFrom (replacement :: reversed) (rest.drop (width - 1))
  termination_by bytes => bytes.length
  decreasing_by all_goals simp only [List.length_drop, List.length_cons]; omega

/-- The characters of a byte string, one U+FFFD for each maximal ill-formed stretch. -/
def decodeLossy (bytes : List UInt8) : List Char :=
  decodeLossyFrom [] bytes

/-- Where a byte string stops being UTF-8: the reason, the first byte and the position and width of
the ill-formed stretch. -/
structure Fault where
  reason : Reason
  byte : UInt8
  position : Nat
  width : Nat
  deriving DecidableEq

/-- Reads bytes strictly, `position` counting those in front of them. -/
def decodeFrom (reversed : List Char) (position : Nat) : List UInt8 → Except Fault (List Char)
  | [] => .ok reversed.reverse
  | b :: rest =>
    match piece b rest with
    | (.ok c, width) => decodeFrom (c :: reversed) (position + width) (rest.drop (width - 1))
    | (.error reason, width) => .error ⟨reason, b, position, width⟩
  termination_by bytes => bytes.length
  decreasing_by simp only [List.length_drop, List.length_cons]; omega

/-- The characters of a byte string that is UTF-8 throughout. -/
def decode? (bytes : List UInt8) : Except Fault (List Char) :=
  decodeFrom [] 0 bytes

/-- The UTF-8 bytes of a text. -/
def encode (text : List Char) : List UInt8 :=
  text.flatMap String.utf8EncodeChar

/-- The UTF-8 bytes of a string. -/
def encodeString (s : String) : List UInt8 :=
  encode s.toList

end AnalyzerBridge.Text.Utf8
