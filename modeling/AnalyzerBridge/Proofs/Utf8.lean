/-
UTF-8, written and read back.

`encode` is what it means to be UTF-8: a byte string is UTF-8 if it is the
encoding of some text.  Both decoders agree with it:

* `piece_eq_ok_iff` — a lead byte and what follows it are read as a character
  exactly if they spell one;
* `spells_iff` — the bytes that spell a character are those it is encoded as;
* `decode?_eq_ok_iff` — strict reading succeeds on encodings and nothing else;
* `decodeLossy_encode` — reading with replacement has nothing to replace there.

Design notes: `Spells` is the grammar of one character, the ranges of the lead
byte and of the bytes after it.  It stands between the reader, which walks along
the bytes, and the encoder, which is arithmetic on the code point; the bytes are
compared as numbers (`toNat_encodeChar`), so that what remains is linear.
-/
import AnalyzerBridge.Text.Utf8
import Mathlib.Data.List.Basic

namespace AnalyzerBridge.Text.Utf8

/-! ### The grammar of a character -/

/-- As many bytes follow a lead as it asks for, the first of them in the range of the lead. -/
def Follows (need : Nat) (lo hi : UInt8) (bytes : List UInt8) : Prop :=
  bytes.length = need ∧ (∀ b ∈ bytes.head?, lo ≤ b ∧ b ≤ hi) ∧
    ∀ b ∈ bytes.tail, 0x80 ≤ b ∧ b ≤ 0xBF

/-- The code point that following bytes complete, six bits each. -/
def codeOf (code : Nat) (bytes : List UInt8) : Nat :=
  bytes.foldl (fun code b => code * 64 + b.toNat % 64) code

/-- A lead byte and the bytes after it spell a character. -/
def Spells (c : Char) (b : UInt8) (bytes : List UInt8) : Prop :=
  ∃ need lo hi code, lead? b = some (need, lo, hi, code) ∧ Follows need lo hi bytes ∧
    c = Char.ofNat (codeOf code bytes)

section Trail

variable {need : Nat} {lo hi : UInt8} {bytes : List UInt8}

theorem follows_one_iff :
    Follows 1 lo hi bytes ↔ ∃ a, bytes = [a] ∧ lo.toNat ≤ a.toNat ∧ a.toNat ≤ hi.toNat := by
  constructor
  · rintro ⟨hlen, hfirst, -⟩
    obtain ⟨a, rfl⟩ := List.length_eq_one_iff.mp hlen
    exact ⟨a, rfl, hfirst a rfl⟩
  · rintro ⟨a, rfl, ha⟩
    exact ⟨rfl, by rintro _ ⟨⟩; exact ha, by simp⟩

theorem follows_two_iff :
    Follows 2 lo hi bytes ↔ ∃ a d, bytes = [a, d] ∧ (lo.toNat ≤ a.toNat ∧ a.toNat ≤ hi.toNat) ∧
      0x80 ≤ d.toNat ∧ d.toNat ≤ 0xBF := by
  constructor
  · rintro ⟨hlen, hfirst, hlater⟩
    obtain ⟨a, d, rfl⟩ := List.length_eq_two.mp hlen
    exact ⟨a, d, rfl, hfirst a rfl, hlater d (by simp)⟩
  · rintro ⟨a, d, rfl, ha, hd⟩
    exact ⟨rfl, by rintro _ ⟨⟩; exact ha, List.forall_mem_singleton.mpr hd⟩

theorem follows_three_iff :
    Follows 3 lo hi bytes ↔ ∃ a d e, bytes = [a, d, e] ∧
      (lo.toNat ≤ a.toNat ∧ a.toNat ≤ hi.toNat) ∧ (0x80 ≤ d.toNat ∧ d.toNat ≤ 0xBF) ∧
      0x80 ≤ e.toNat ∧ e.toNat ≤ 0xBF := by
  constructor
  · rintro ⟨hlen, hfirst, hlater⟩
    obtain ⟨a, d, e, rfl⟩ := List.length_eq_three.mp hlen
    exact ⟨a, d, e, rfl, hfirst a rfl, hlater d (by simp), hlater e (by simp)⟩
  · rintro ⟨a, d, e, rfl, ha, hd, he⟩
    exact ⟨rfl, by rintro _ ⟨⟩; exact ha,
      List.forall_mem_cons.mpr ⟨hd, List.forall_mem_singleton.mpr he⟩⟩

theorem trail_append (code width : Nat) (h : Follows need lo hi bytes) (rest : List UInt8) :
    trail need lo hi code width (bytes ++ rest) =
      (.ok (Char.ofNat (codeOf code bytes)), width + bytes.length) := by
  induction bytes generalizing need lo hi code width with
  | nil =>
    obtain ⟨rfl, -, -⟩ := h
    rfl
  | cons b bytes ih =>
    obtain ⟨rfl, hfirst, hlater⟩ := h
    -- after the first byte the range is that of every later one
    have hrest : Follows bytes.length 0x80 0xBF bytes :=
      ⟨rfl, fun d hd => hlater d (List.mem_of_mem_head? hd),
        fun d hd => hlater d (List.mem_of_mem_tail hd)⟩
    have hb := hfirst b rfl
    rw [List.length_cons, List.cons_append, trail, if_pos (by simp [hb]), ih _ _ hrest, codeOf, codeOf,
      List.foldl_cons]
    congr 1
    omega

theorem trail_eq_ok {code width w : Nat} {rest : List UInt8} {c : Char}
    (h : trail need lo hi code width rest = (.ok c, w)) :
    ∃ bytes left, rest = bytes ++ left ∧ Follows need lo hi bytes ∧
      c = Char.ofNat (codeOf code bytes) ∧ w = width + bytes.length := by
  induction need generalizing lo hi code width rest with
  | zero =>
    obtain ⟨hc, rfl⟩ := Prod.mk.inj h
    exact ⟨[], rest, rfl, ⟨rfl, by simp, by simp⟩, (Except.ok.inj hc).symm, rfl⟩
  | succ need ih =>
    cases rest with
    | nil => exact absurd (Prod.mk.inj h).1 (by simp)
    | cons b rest =>
      rw [trail] at h
      split at h
      next hb =>
        rw [Bool.and_eq_true, decide_eq_true_eq, decide_eq_true_eq] at hb
        obtain ⟨bytes, left, rfl, ⟨rfl, hfirst, hlater⟩, rfl, rfl⟩ := ih h
        refine ⟨b :: bytes, left, rfl, ⟨rfl, by simpa using hb, ?_⟩, rfl, ?_⟩
        · cases bytes with
          | nil => simp
          | cons d bytes => exact List.forall_mem_cons.mpr ⟨hfirst d rfl, hlater⟩
        · rw [List.length_cons]
          omega
      next => exact absurd (Prod.mk.inj h).1 (by simp)

end Trail

/-- The reader takes a character off the front exactly if the bytes there spell it. -/
theorem piece_eq_ok_iff {b : UInt8} {rest : List UInt8} {c : Char} {w : Nat} :
    piece b rest = (.ok c, w) ↔
      ∃ bytes left, rest = bytes ++ left ∧ Spells c b bytes ∧ w = bytes.length + 1 := by
  rw [piece]
  constructor
  · intro h
    split at h
    next => exact absurd (Prod.mk.inj h).1 (by simp)
    next need lo hi code hlead =>
      obtain ⟨bytes, left, rfl, hfollows, rfl, rfl⟩ := trail_eq_ok h
      exact ⟨bytes, left, rfl, ⟨need, lo, hi, code, hlead, hfollows, rfl⟩, Nat.add_comm _ _⟩
  · rintro ⟨bytes, left, rfl, ⟨need, lo, hi, code, hlead, hfollows, rfl⟩, rfl⟩
    simp only [hlead]
    rw [trail_append code 1 hfollows, Nat.add_comm]

/-! ### The encoding of a character -/

/-- The lead bytes, told apart by their numbers. -/
theorem lead?_eq (b : UInt8) : lead? b =
    if b.toNat < 0x80 then some (0, 0x80, 0xBF, b.toNat)
    else if b.toNat < 0xC2 then none
    else if b.toNat < 0xE0 then some (1, 0x80, 0xBF, b.toNat % 32)
    else if b.toNat = 0xE0 then some (2, 0xA0, 0xBF, 0)
    else if b.toNat = 0xED then some (2, 0x80, 0x9F, 13)
    else if b.toNat < 0xF0 then some (2, 0x80, 0xBF, b.toNat % 16)
    else if b.toNat = 0xF0 then some (3, 0x90, 0xBF, 0)
    else if b.toNat < 0xF4 then some (3, 0x80, 0xBF, b.toNat % 8)
    else if b.toNat = 0xF4 then some (3, 0x80, 0x8F, 4)
    else none := by
  simp only [lead?, beq_iff_eq, UInt8.lt_iff_toNat_lt, ← UInt8.toNat_inj]
  rfl

/-- The bytes of a character as numbers. -/
theorem toNat_encodeChar (c : Char) :
    (String.utf8EncodeChar c).map UInt8.toNat =
      if c.toNat < 0x80 then [c.toNat]
      else if c.toNat < 0x800 then [c.toNat / 64 + 192, c.toNat % 64 + 128]
      else if c.toNat < 0x10000 then
        [c.toNat / 4096 + 224, c.toNat / 64 % 64 + 128, c.toNat % 64 + 128]
      else
        [c.toNat / 262144 + 240, c.toNat / 4096 % 64 + 128, c.toNat / 64 % 64 + 128,
          c.toNat % 64 + 128] := by
  have hvalid : c.toNat < 0xD800 ∨ 0xDFFF < c.toNat ∧ c.toNat < 0x110000 := c.valid
  have hval : c.val.toNat = c.toNat := rfl
  rw [String.utf8EncodeChar.eq_1, hval]
  generalize c.toNat = v at hvalid
  split_ifs <;>
    simp only [List.map_cons, List.map_nil, UInt8.toNat_ofNat', List.cons.injEq, and_true] <;> omega

theorem toNat_ofNat_of_valid {n : Nat} (h : n < 0xD800 ∨ 0xDFFF < n ∧ n < 0x110000) :
    (Char.ofNat n).toNat = n := by
  rw [Char.ofNat, dif_pos h]
  rfl

/-- Bytes that spell a character are its encoding. -/
theorem encodeChar_of_spells {c : Char} {b : UInt8} {bytes : List UInt8} (h : Spells c b bytes) :
    String.utf8EncodeChar c = b :: bytes := by
  obtain ⟨need, lo, hi, code, hlead, hfollows, rfl⟩ := h
  have hlt := b.toNat_lt
  refine List.map_injective_iff.mpr (fun _ _ => UInt8.toNat_inj.mp) ?_
  rw [toNat_encodeChar]
  rw [lead?_eq] at hlead
  -- one case for each row of the table of leads, and the row says how many bytes follow
  split_ifs at hlead
  all_goals obtain ⟨rfl, rfl, rfl, rfl⟩ := by simpa using hlead
  case pos =>
    obtain rfl := List.length_eq_zero_iff.mp hfollows.1
    have hcode : codeOf b.toNat [] = b.toNat := rfl
    rw [hcode, toNat_ofNat_of_valid (by omega), if_pos (by omega)]
    rfl
  case pos =>
    obtain ⟨a, rfl, ha⟩ := follows_one_iff.mp hfollows
    simp only [UInt8.reduceToNat] at ha
    have hcode : codeOf (b.toNat % 32) [a] = b.toNat % 32 * 64 + a.toNat % 64 := rfl
    rw [hcode, toNat_ofNat_of_valid (by omega), if_neg (by omega), if_pos (by omega)]
    simp only [List.map_cons, List.map_nil, List.cons.injEq, and_true]
    omega
  iterate 3
    case pos =>
      obtain ⟨a, d, rfl, ha, hd⟩ := follows_two_iff.mp hfollows
      simp only [UInt8.reduceToNat] at ha
      have hcode : ∀ code, codeOf code [a, d] = (code * 64 + a.toNat % 64) * 64 + d.toNat % 64 :=
        fun _ => rfl
      rw [hcode, toNat_ofNat_of_valid (by omega), if_neg (by omega), if_neg (by omega),
        if_pos (by omega)]
      simp only [List.map_cons, List.map_nil, List.cons.injEq, and_true]
      omega
  iterate 3
    case pos =>
      obtain ⟨a, d, e, rfl, ha, hd, he⟩ := follows_three_iff.mp hfollows
      simp only [UInt8.reduceToNat] at ha
      have hcode : ∀ code, codeOf code [a, d, e] =
          ((code * 64 + a.toNat % 64) * 64 + d.toNat % 64) * 64 + e.toNat % 64 := fun _ => rfl
      rw [hcode, toNat_ofNat_of_valid (by omega), if_neg (by omega), if_neg (by omega),
        if_neg (by omega)]
      simp only [List.map_cons, List.map_nil, List.cons.injEq, and_true]
      omega

section Encoded

variable {v : Nat} {b a d e : UInt8}

theorem spells_one (hv : v < 0x80) (hb : b.toNat = v) : Spells (Char.ofNat v) b [] := by
  refine ⟨0, 0x80, 0xBF, b.toNat, ?_, ⟨rfl, by simp, by simp⟩, by rw [hb]; rfl⟩
  rw [lead?_eq, if_pos (by omega)]

theorem spells_two (hv : 0x80 ≤ v ∧ v < 0x800) (hb : b.toNat = v / 64 + 192)
    (ha : a.toNat = v % 64 + 128) : Spells (Char.ofNat v) b [a] := by
  have hlead : lead? b = some (1, 0x80, 0xBF, b.toNat % 32) := by
    rw [lead?_eq, if_neg (by omega), if_neg (by omega), if_pos (by omega)]
  have hcode : codeOf (b.toNat % 32) [a] = b.toNat % 32 * 64 + a.toNat % 64 := rfl
  refine ⟨_, _, _, _, hlead, follows_one_iff.mpr ⟨a, rfl, ?_⟩, congrArg Char.ofNat ?_⟩
  · simp only [UInt8.reduceToNat]
    omega
  · omega

theorem spells_three (hv : 0x800 ≤ v ∧ v < 0xD800 ∨ 0xDFFF < v ∧ v < 0x10000)
    (hb : b.toNat = v / 4096 + 224) (ha : a.toNat = v / 64 % 64 + 128) (hd : d.toNat = v % 64 + 128) :
    Spells (Char.ofNat v) b [a, d] := by
  have hcode : ∀ code, codeOf code [a, d] = (code * 64 + a.toNat % 64) * 64 + d.toNat % 64 :=
    fun _ => rfl
  have hlt : b.toNat < 0xF0 := by omega
  rw [Spells, lead?_eq, if_neg (by omega), if_neg (by omega), if_neg (by omega), if_pos hlt]
  -- the leads E0 and ED narrow the range of the next byte, and the code point is in it
  split_ifs <;>
  · refine ⟨_, _, _, _, rfl, follows_two_iff.mpr ⟨a, d, rfl, ?_, by omega⟩, congrArg Char.ofNat ?_⟩
    · simp only [UInt8.reduceToNat]
      omega
    · rw [hcode]
      omega

theorem spells_four (hv : 0x10000 ≤ v ∧ v < 0x110000) (hb : b.toNat = v / 262144 + 240)
    (ha : a.toNat = v / 4096 % 64 + 128) (hd : d.toNat = v / 64 % 64 + 128)
    (he : e.toNat = v % 64 + 128) : Spells (Char.ofNat v) b [a, d, e] := by
  have hcode : ∀ code, codeOf code [a, d, e] =
      ((code * 64 + a.toNat % 64) * 64 + d.toNat % 64) * 64 + e.toNat % 64 := fun _ => rfl
  rw [Spells, lead?_eq, if_neg (by omega), if_neg (by omega), if_neg (by omega), if_neg (by omega),
    if_neg (by omega), if_neg (by omega)]
  -- the leads F0 and F4 do so too, and there is no lead above F4
  split_ifs
  case neg => omega
  all_goals
    refine ⟨_, _, _, _, rfl, follows_three_iff.mpr ⟨a, d, e, rfl, ?_, by omega, by omega⟩,
      congrArg Char.ofNat ?_⟩
    · simp only [UInt8.reduceToNat]
      omega
    · rw [hcode]
      omega

end Encoded

/-- The encoding of a character spells it. -/
theorem spells_of_encodeChar {c : Char} {b : UInt8} {bytes : List UInt8}
    (h : String.utf8EncodeChar c = b :: bytes) : Spells c b bytes := by
  have hvalid : c.toNat < 0xD800 ∨ 0xDFFF < c.toNat ∧ c.toNat < 0x110000 := c.valid
  have hnat := toNat_encodeChar c
  have hc : c = Char.ofNat c.toNat := (Char.ofNat_toNat c).symm
  rw [h, List.map_cons] at hnat
  generalize c.toNat = v at hc hnat hvalid
  subst hc
  split_ifs at hnat
  case pos =>
    obtain ⟨hb, rfl⟩ : b.toNat = _ ∧ bytes = [] := by simpa using hnat
    exact spells_one (by omega) hb
  case pos =>
    obtain ⟨hb, a, rfl, ha⟩ : b.toNat = _ ∧ ∃ a, bytes = [a] ∧ a.toNat = _ := by
      simpa [List.map_eq_cons_iff] using hnat
    exact spells_two (by omega) hb ha
  case pos =>
    obtain ⟨hb, a, _, rfl, ha, d, rfl, hd⟩ : b.toNat = _ ∧
        ∃ a l, bytes = a :: l ∧ a.toNat = _ ∧ ∃ d, l = [d] ∧ d.toNat = _ := by
      simpa [List.map_eq_cons_iff] using hnat
    exact spells_three (by omega) hb ha hd
  case neg =>
    obtain ⟨hb, a, _, rfl, ha, d, _, rfl, hd, e, rfl, he⟩ : b.toNat = _ ∧
        ∃ a l, bytes = a :: l ∧ a.toNat = _ ∧ ∃ d m, l = d :: m ∧ d.toNat = _ ∧
          ∃ e, m = [e] ∧ e.toNat = _ := by
      simpa [List.map_eq_cons_iff] using hnat
    exact spells_four (by omega) hb ha hd he

theorem spells_iff {c : Char} {b : UInt8} {bytes : List UInt8} :
    Spells c b bytes ↔ String.utf8EncodeChar c = b :: bytes :=
  ⟨encodeChar_of_spells, spells_of_encodeChar⟩

/-! ### Whole texts -/

theorem encode_cons (c : Char) (text : List Char) :
    encode (c :: text) = String.utf8EncodeChar c ++ encode text := rfl

theorem encode_append (text more : List Char) : encode (text ++ more) = encode text ++ encode more :=
  List.flatMap_append

/-- The front of an encoding is read as its first character, and the rest of it is left. -/
theorem piece_encode (c : Char) (rest : List UInt8) :
    ∃ b bytes, String.utf8EncodeChar c = b :: bytes ∧
      piece b (bytes ++ rest) = (.ok c, bytes.length + 1) := by
  obtain ⟨b, bytes, h⟩ := List.exists_cons_of_ne_nil (@String.utf8EncodeChar_ne_nil c)
  exact ⟨b, bytes, h, piece_eq_ok_iff.mpr ⟨bytes, rest, rfl, spells_iff.mpr h, rfl⟩⟩

theorem decodeFrom_encode (text reversed : List Char) (position : Nat) :
    decodeFrom reversed position (encode text) = .ok (reversed.reverse ++ text) := by
  induction text generalizing reversed position with
  | nil =>
    rw [encode, List.flatMap_nil, decodeFrom, List.append_nil]
  | cons c text ih =>
    obtain ⟨b, bytes, hc, hpiece⟩ := piece_encode c (encode text)
    rw [encode_cons, hc, List.cons_append, decodeFrom]
    simp only [hpiece, Nat.add_sub_cancel, List.drop_left]
    rw [ih, List.reverse_cons, List.append_assoc, List.singleton_append]

theorem encode_of_decodeFrom {reversed text : List Char} {position : Nat} {bytes : List UInt8}
    (h : decodeFrom reversed position bytes = .ok text) :
    ∃ more, text = reversed.reverse ++ more ∧ bytes = encode more := by
  fun_induction decodeFrom reversed position bytes with
  | case1 reversed position =>
    obtain rfl := Except.ok.inj h
    exact ⟨[], (List.append_nil _).symm, rfl⟩
  | case2 reversed position b rest c width hpiece ih =>
    obtain ⟨bytes, left, rfl, hspells, rfl⟩ := piece_eq_ok_iff.mp hpiece
    rw [Nat.add_sub_cancel, List.drop_left] at ih h
    obtain ⟨more, rfl, rfl⟩ := ih h
    refine ⟨c :: more, ?_, ?_⟩
    · rw [List.reverse_cons, List.append_assoc, List.singleton_append]
    · rw [encode_cons, spells_iff.mp hspells, List.cons_append]
  | case3 => exact absurd h (by simp)

/-- Strict reading succeeds on the encodings of texts and on nothing else. -/
theorem decode?_eq_ok_iff {bytes : List UInt8} {text : List Char} :
    decode? bytes = .ok text ↔ bytes = encode text := by
  constructor
  · intro h
    obtain ⟨more, rfl, rfl⟩ := encode_of_decodeFrom h
    rfl
  · rintro rfl
    exact decodeFrom_encode text [] 0

theorem encode_injective : Function.Injective encode := by
  intro text other h
  exact Except.ok.inj ((decode?_eq_ok_iff.mpr rfl).symm.trans (decode?_eq_ok_iff.mpr h))

theorem fault_of_decodeFrom {reversed : List Char} {position : Nat} {bytes : List UInt8} {fault : Fault}
    (h : decodeFrom reversed position bytes = .error fault) :
    ∃ text rest, bytes = encode text ++ fault.byte :: rest ∧
      fault.position = position + (encode text).length ∧
      ∀ c left, fault.byte :: rest ≠ String.utf8EncodeChar c ++ left := by
  fun_induction decodeFrom reversed position bytes with
  | case1 => exact absurd h (by simp)
  | case2 reversed position b rest c width hpiece ih =>
    obtain ⟨bytes, left, rfl, hspells, rfl⟩ := piece_eq_ok_iff.mp hpiece
    rw [Nat.add_sub_cancel, List.drop_left] at ih h
    obtain ⟨text, rest, rfl, hposition, hno⟩ := ih h
    have hcons : encode (c :: text) = b :: bytes ++ encode text := by
      rw [encode_cons, spells_iff.mp hspells]
    refine ⟨c :: text, rest, ?_, ?_, hno⟩
    · rw [hcons, List.append_assoc, List.cons_append]
    · rw [hposition, hcons, List.length_append, List.length_cons]
      omega
  | case3 reversed position b rest reason width hpiece =>
    obtain rfl := Except.error.inj h
    refine ⟨[], rest, rfl, rfl, fun c left hcut => ?_⟩
    -- a character in front would have been read
    obtain ⟨b', bytes, hc, hread⟩ := piece_encode c left
    rw [hc, List.cons_append] at hcut
    obtain ⟨rfl, rfl⟩ := List.cons.inj hcut
    rw [hpiece] at hread
    exact absurd hread (by simp)

/-- Strict reading stops behind the longest encoding in front, where no character begins. -/
theorem fault_of_decode? {bytes : List UInt8} {fault : Fault} (h : decode? bytes = .error fault) :
    ∃ text rest, bytes = encode text ++ fault.byte :: rest ∧
      fault.position = (encode text).length ∧
      ∀ c left, fault.byte :: rest ≠ String.utf8EncodeChar c ++ left := by
  obtain ⟨text, rest, hbytes, hposition, hno⟩ := fault_of_decodeFrom h
  exact ⟨text, rest, hbytes, by rw [hposition, Nat.zero_add], hno⟩

theorem decodeLossyFrom_encode (text reversed : List Char) :
    decodeLossyFrom reversed (encode text) = reversed.reverse ++ text := by
  induction text generalizing reversed with
  | nil =>
    rw [encode, List.flatMap_nil, decodeLossyFrom, List.append_nil]
  | cons c text ih =>
    obtain ⟨b, bytes, hc, hpiece⟩ := piece_encode c (encode text)
    rw [encode_cons, hc, List.cons_append, decodeLossyFrom]
    simp only [hpiece, Nat.add_sub_cancel, List.drop_left]
    rw [ih, List.reverse_cons, List.append_assoc, List.singleton_append]

/-- Reading with replacement replaces nothing in an encoding. -/
theorem decodeLossy_encode (text : List Char) : decodeLossy (encode text) = text :=
  decodeLossyFrom_encode text []

end AnalyzerBridge.Text.Utf8
