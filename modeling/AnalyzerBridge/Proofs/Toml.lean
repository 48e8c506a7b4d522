/-
Which texts the TOML reader reads, and where it meets one of its limits.

A grammar says which value stands in front of a text (`Denotes`) and which table the
lines of a document make (`Lines`), and where on the way an integer is too long or there
is no room for a value (`Exceeds`, `Breaks`).

* `read_follows`, `readLines_cases` — the readers of values, blocks and lines keep to the
  grammar;
* `read_of_denotes`, `read_of_exceeds`, `readLines_of_lines` — and with fuel for each
  character of the text they do what it says;
* `parse_eq_ok_iff`, `parse_eq_error_iff` — so a text is read as a table exactly if it is
  a document of that table, and it meets a limit exactly if the grammar says so;
* `Exceeds.cause`, `Breaks.cause` — a limit that is met has its cause in one place of the
  text: an overlong integer, or no room inside brackets that were opened before.

Design notes: what has been read of an array or an inline table decides what may follow,
so it is part of the `Task` that is left, and one set of rules does for both.  The room
is any function of the enclosures and the text, and nothing here depends on its values.
-/
import AnalyzerBridge.Proofs.TomlLexeme

namespace AnalyzerBridge.Toml

variable {room : Room} {fuel : Nat} {around : List Enclosure} {text rest entry after more : List Char}
  {v : Value} {fault : Fault}

/-! ### The grammar of values -/

/-- The bracket that opens an enclosure. -/
def Enclosure.opening : Enclosure → Char
  | .array => '['
  | .inlineTable => Char.ofNat 0x7B

/-- A block as far as it has been read: the items of an array, the last one first, or an inline table with
the paths in it that are closed. -/
inductive Block where
  | array (reversed : List Value)
  | inlineTable (closed : List Path) (t : Table)

/-- A block of which nothing has been read. -/
def Enclosure.start : Enclosure → Block
  | .array => .array []
  | .inlineTable => .inlineTable [] []

namespace Block

/-- The bracket that closes a block. -/
def closing : Block → Char
  | .array _ => ']'
  | .inlineTable .. => Char.ofNat 0x7D

/-- The value of a block that is closed. -/
def value : Block → Value
  | .array reversed => .list reversed.reverse
  | .inlineTable _ t => .table t

/-- A block with one more value, which in an inline table has a key. -/
def add : Block → Path → Value → Option Block
  | .array reversed, _, v => some (.array (v :: reversed))
  | .inlineTable closed t, key, v =>
    (assignInline closed key v t).map fun t =>
      .inlineTable (if isNest v then key :: closed else closed) t

/-- The text behind a value of a block: an array may go on with newlines and comments, an inline table only
with blanks. -/
def behind : Block → List Char → Except Fault (List Char)
  | .array _, text => skipSpace false text
  | .inlineTable .., text => .ok (skipBlanks text)

/-- The text behind a bracket or a comma of a block. -/
def next : Block → List Char → List Char
  | .array _, text => text
  | .inlineTable .., text => skipBlanks text

end Block

/-- An entry of a block: the text from its value on, and in an inline table the key of the value. -/
inductive Entry : Block → (text : List Char) → (key : Path) → (value : List Char) → Prop
  | item {reversed : List Value} {text value : List Char} (hspace : skipSpace false text = .ok value)
      (hopen : value.head? ≠ some ']') : Entry (.array reversed) text [] value
  | field {closed : List Path} {t : Table} {text value : List Char} {key : Path}
      (hkey : readKey text = .ok (key, '=' :: value)) :
      Entry (.inlineTable closed t) text key (skipBlanks value)

/-- What is to be read: a value, or the rest of a block; both inside of the enclosures around. -/
inductive Task where
  | value (around : List Enclosure)
  | entries (around : List Enclosure) (block : Block)

/-- A text that starts with no quote and no bracket. -/
def Plain (text : List Char) : Prop :=
  ∀ c ∈ text.head?, c ∉ ['"', '\'', '[', Char.ofNat 0x7B]

/-- The value that stands in front of a text, and the rest behind it.  There is room for every value on
the way. -/
inductive Denotes (room : Room) : Task → (text : List Char) → Value → (rest : List Char) → Prop
  | string {around : List Enclosure} {text chars rest : List Char} (hroom : room around text = true)
      (hstring : readString? text = some (.ok (chars, rest))) :
      Denotes room (.value around) text (.text (String.ofList chars)) rest
  | atom {around : List Enclosure} {text rest : List Char} {v : Value}
      (hroom : room around text = true) (hplain : Plain text) (hatom : readAtom text = .ok (v, rest)) :
      Denotes room (.value around) text v rest
  | block {around : List Enclosure} {e : Enclosure} {text rest : List Char} {v : Value}
      (hroom : room around (e.opening :: text) = true)
      (h : Denotes room (.entries (e :: around) e.start) (e.start.next text) v rest) :
      Denotes room (.value around) (e.opening :: text) v rest
  | emptyTable {around : List Enclosure} {text rest : List Char}
      (hroom : room around (Char.ofNat 0x7B :: text) = true)
      (hclose : skipBlanks text = Char.ofNat 0x7D :: rest) :
      Denotes room (.value around) (Char.ofNat 0x7B :: text) (.table []) rest
  | closed {around : List Enclosure} {reversed : List Value} {text rest : List Char}
      (hclose : skipSpace false text = .ok (']' :: rest)) :
      Denotes room (.entries around (.array reversed)) text (.list reversed.reverse) rest
  | last {around : List Enclosure} {block full : Block} {text entry after rest : List Char}
      {key : Path} {v : Value} (hentry : Entry block text key entry)
      (h : Denotes room (.value around) entry v after) (hadd : block.add key v = some full)
      (hclose : block.behind after = .ok (block.closing :: rest)) :
      Denotes room (.entries around block) text full.value rest
  | comma {around : List Enclosure} {block grown : Block} {text entry after more rest : List Char}
      {key : Path} {v w : Value} (hentry : Entry block text key entry)
      (h : Denotes room (.value around) entry v after) (hadd : block.add key v = some grown)
      (hcomma : block.behind after = .ok (',' :: more))
      (hmore : Denotes room (.entries around grown) (block.next more) w rest) :
      Denotes room (.entries around block) text w rest

/-- On the way to the end of a value, a limit is met. -/
inductive Exceeds (room : Room) : Task → (text : List Char) → Fault → Prop
  | crowded {around : List Enclosure} {text : List Char} (hroom : room around text = false) :
      Exceeds room (.value around) text .tooDeep
  | long {around : List Enclosure} {text : List Char} {digits : Nat} (hroom : room around text = true)
      (h : Overlong digits text) : Exceeds room (.value around) text (.integerTooLong digits)
  | inside {around : List Enclosure} {e : Enclosure} {text : List Char} {fault : Fault}
      (hroom : room around (e.opening :: text) = true)
      (h : Exceeds room (.entries (e :: around) e.start) (e.start.next text) fault) :
      Exceeds room (.value around) (e.opening :: text) fault
  | entry {around : List Enclosure} {block : Block} {text entry : List Char} {key : Path} {fault : Fault}
      (hentry : Entry block text key entry) (h : Exceeds room (.value around) entry fault) :
      Exceeds room (.entries around block) text fault
  | later {around : List Enclosure} {block grown : Block} {text entry after more : List Char}
      {key : Path} {v : Value} {fault : Fault} (hentry : Entry block text key entry)
      (hvalue : Denotes room (.value around) entry v after) (hadd : block.add key v = some grown)
      (hcomma : block.behind after = .ok (',' :: more))
      (h : Exceeds room (.entries around grown) (block.next more) fault) :
      Exceeds room (.entries around block) text fault

theorem Exceeds.ne_malformed {task : Task} (h : Exceeds room task text fault) : fault ≠ .malformed := by
  induction h with
  | crowded => simp
  | long => simp
  | inside _ _ ih => exact ih
  | entry _ _ ih => exact ih
  | later _ _ _ _ _ ih => exact ih

/-! ### The readers of values keep to the grammar -/

/-- The result of a reader is the value in front of a text with the rest behind it, or the limit that is
met, or the text is malformed. -/
def Follows (room : Room) (task : Task) (text : List Char) : Read Value → Prop
  | .ok (v, rest) => Denotes room task text v rest
  | .error fault => fault ≠ .malformed → Exceeds room task text fault

/-- What the reader for a task makes of a text. -/
def Task.read (room : Room) (fuel : Nat) (text : List Char) : Task → Read Value
  | .value around => readValue room fuel around text
  | .entries around (.array reversed) => readArray room fuel around reversed text
  | .entries around (.inlineTable closed t) => readInline room fuel around closed t text

theorem head_of_readString? (h : readString? text = none) : ∀ c ∈ text.head?, c ≠ '"' ∧ c ≠ '\'' := by
  rw [readString?.eq_def] at h
  split at h
  next => exact absurd h (by simp)
  next => exact absurd h (by simp)
  next => exact absurd h (by simp)
  next => exact absurd h (by simp)
  next _ hbasic _ hliteral =>
    intro c hc
    obtain ⟨more, rfl⟩ := List.head?_eq_some_iff.mp hc
    exact ⟨fun heq => hbasic more (by rw [heq]), fun heq => hliteral more (by rw [heq])⟩

theorem plain_of_readString? {c : Char} (hstring : readString? (c :: rest) = none)
    (hbracket : ¬ (c == '[') = true) (hbrace : ¬ (c.toNat == 0x7B) = true) : Plain (c :: rest) := by
  intro d hd
  obtain rfl : c = d := Option.some_inj.mp hd
  obtain ⟨hdouble, hsingle⟩ := head_of_readString? hstring c rfl
  have hne : c ≠ Char.ofNat 0x7B := by
    rintro rfl
    exact hbrace rfl
  simpa [hdouble, hsingle, hne] using hbracket

/-- Where no quote and no bracket stands, what the reader of atoms does follows the grammar. -/
theorem readAtom_follows (hroom : room around text = true) (hplain : Plain text) :
    Follows room (.value around) text (readAtom text) := by
  rcases readAtom_cases text with ⟨v, left, hread, -⟩ | hread | ⟨digits, hread, -⟩
  · rw [hread]
    exact .atom hroom hplain hread
  · rw [hread]
    exact fun hfault => absurd rfl hfault
  · rw [hread]
    exact fun _ => .long hroom (readAtom_long_iff.mp hread)

/-- A block follows the grammar if its entries do. -/
theorem Follows.inside {e : Enclosure} {r : Read Value} (hroom : room around (e.opening :: text) = true)
    (h : Follows room (.entries (e :: around) e.start) (e.start.next text) r) :
    Follows room (.value around) (e.opening :: text) r := by
  rcases r with fault | ⟨v, rest⟩
  · exact fun hfault => .inside hroom (h hfault)
  · exact .block hroom h

/-- What follows an entry decides how the entries go on. -/
theorem Follows.later {block grown : Block} {key : Path} {r : Read Value}
    (hentry : Entry block text key entry) (hvalue : Denotes room (.value around) entry v after)
    (hadd : block.add key v = some grown) (hcomma : block.behind after = .ok (',' :: more))
    (h : Follows room (.entries around grown) (block.next more) r) :
    Follows room (.entries around block) text r := by
  rcases r with fault | ⟨w, rest⟩
  · exact fun hfault => .later hentry hvalue hadd hcomma (h hfault)
  · exact .comma hentry hvalue hadd hcomma h

section Step

variable (ih : ∀ (task : Task) text, Follows room task text (task.read room fuel text))

include ih

theorem readValue_follows (around : List Enclosure) (text : List Char) :
    Follows room (.value around) text (readValue room (fuel + 1) around text) := by
  rw [readValue.eq_def]
  simp only
  cases hroom : room around text with
  | false => exact fun _ => .crowded hroom
  | true =>
    simp only [Bool.not_true, Bool.false_eq_true, if_false]
    split
    next r hstring =>
      rcases r with fault | ⟨chars, rest⟩
      · exact fun hfault => absurd ((readString?_takes hstring).malformed rfl) hfault
      · exact .string hroom hstring
    next hstring =>
      split
      next => exact fun hfault => absurd rfl hfault
      next c rest =>
        split
        next hc =>
          obtain rfl := eq_of_beq hc
          exact Follows.inside (e := .array) hroom (ih (.entries (.array :: around) (.array [])) rest)
        next hbracket =>
          split
          next hc =>
            obtain rfl : c = Char.ofNat 0x7B := by rw [← eq_of_beq hc, Char.ofNat_toNat]
            split
            next => exact fun hfault => absurd rfl hfault
            next d left hskip =>
              split
              next hd =>
                refine .emptyTable hroom (hskip.trans ?_)
                rw [← eq_of_beq hd, Char.ofNat_toNat]
              next =>
                rw [← hskip]
                exact Follows.inside (e := .inlineTable) hroom
                  (ih (.entries (.inlineTable :: around) (.inlineTable [] [])) (skipBlanks rest))
          next hbrace =>
            exact readAtom_follows hroom (plain_of_readString? hstring hbracket hbrace)

theorem readArray_follows (around : List Enclosure) (reversed : List Value) (text : List Char) :
    Follows room (.entries around (.array reversed)) text
      (readArray room (fuel + 1) around reversed text) := by
  rw [readArray.eq_def]
  simp only
  split
  next fault hfault =>
    exact fun hne => absurd ((skipSpace_skips false text).malformed hfault) hne
  next rest hclose => exact .closed hclose
  next entry hopen hfront =>
    have hentry : Entry (.array reversed) text [] entry := by
      refine .item hfront fun hhead => ?_
      obtain ⟨rest, rfl⟩ := List.head?_eq_some_iff.mp hhead
      exact hopen rest rfl
    have hvalue : Follows room (.value around) entry (readValue room fuel around entry) :=
      ih (.value around) entry
    split
    next fault hfault =>
      rw [hfault] at hvalue
      exact fun hne => .entry hentry (hvalue hne)
    next v after hafter =>
      rw [hafter] at hvalue
      -- after the value, the blanks before a comma or the bracket
      split
      next fault hfault =>
        exact fun hne => absurd ((skipSpace_skips false after).malformed hfault) hne
      next rest hclose => exact .last hentry hvalue rfl hclose
      next more hcomma =>
        exact Follows.later hentry hvalue rfl hcomma (ih (.entries around (.array (v :: reversed))) more)
      next => exact fun hne => absurd rfl hne

theorem readInline_follows (around : List Enclosure) (closed : List Path) (t : Table)
    (text : List Char) :
    Follows room (.entries around (.inlineTable closed t)) text
      (readInline room (fuel + 1) around closed t text) := by
  rw [readInline.eq_def]
  simp only
  split
  next fault hfault => exact fun hne => absurd ((readKey_takes text).malformed hfault) hne
  next path left hleft =>
    have hentry : Entry (.inlineTable closed t) text path (skipBlanks left) := .field hleft
    have hvalue : Follows room (.value around) (skipBlanks left)
      (readValue room fuel around (skipBlanks left)) := ih (.value around) (skipBlanks left)
    split
    next fault hfault =>
      rw [hfault] at hvalue
      exact fun hne => .entry hentry (hvalue hne)
    next v after hafter =>
      rw [hafter] at hvalue
      split
      next => exact fun hne => absurd rfl hne
      next grown hassign =>
        have hadd : (Block.inlineTable closed t).add path v =
            some (.inlineTable (if isNest v then path :: closed else closed) grown) := by
          rw [Block.add, hassign]
          rfl
        split
        next more hcomma =>
          exact Follows.later hentry hvalue hadd (congrArg Except.ok hcomma)
            (ih (.entries around (.inlineTable _ grown)) (skipBlanks more))
        next c rest _ hskip =>
          split
          next hc =>
            have hclose : (Block.inlineTable closed t).behind after =
                .ok ((Block.inlineTable closed t).closing :: rest) := by
              rw [Block.behind, hskip, Block.closing, ← eq_of_beq hc, Char.ofNat_toNat]
            exact .last hentry hvalue hadd hclose
          next => exact fun hne => absurd rfl hne
        next => exact fun hne => absurd rfl hne
  next => exact fun hne => absurd rfl hne

end Step

/-- Every reader keeps to the grammar. -/
theorem read_follows (room : Room) (fuel : Nat) (task : Task) (text : List Char) :
    Follows room task text (task.read room fuel text) := by
  induction fuel generalizing task text with
  | zero =>
    -- without fuel, every text counts as malformed
    rcases task with around | ⟨around, reversed | ⟨closed, t⟩⟩
    · rw [Task.read, readValue]
      exact fun hne => absurd rfl hne
    · rw [Task.read, readArray]
      exact fun hne => absurd rfl hne
    · rw [Task.read, readInline]
      exact fun hne => absurd rfl hne
  | succ fuel ih =>
    rcases task with around | ⟨around, reversed | ⟨closed, t⟩⟩
    · exact readValue_follows ih around text
    · exact readArray_follows ih around reversed text
    · exact readInline_follows ih around closed t text

/-! ### The grammar is what the readers do -/

theorem suffix_of_readKey {key : Path} {value : List Char} (hkey : readKey text = .ok (key, '=' :: value)) :
    skipBlanks value <:+ text :=
  ((skipBlanks_suffix value).trans (List.suffix_cons '=' value)).trans ((readKey_takes text).suffix hkey)

theorem Entry.suffix {block : Block} {key : Path} (h : Entry block text key entry) : entry <:+ text := by
  cases h with
  | item hspace => exact (skipSpace_skips false text).suffix hspace
  | field hkey => exact suffix_of_readKey hkey

theorem Block.behind_suffix {block : Block} (h : block.behind text = .ok rest) : rest <:+ text := by
  cases block with
  | array reversed => exact (skipSpace_skips false text).suffix h
  | inlineTable closed t =>
    obtain rfl := Except.ok.inj h
    exact skipBlanks_suffix text

theorem Block.next_suffix (block : Block) (text : List Char) : block.next text <:+ text := by
  cases block with
  | array => exact List.suffix_rfl
  | inlineTable => exact skipBlanks_suffix text

theorem Denotes.suffix {task : Task} (h : Denotes room task text v rest) : rest <:+ text := by
  induction h with
  | string _ hstring => exact (readString?_takes hstring).suffix rfl
  | atom _ _ hatom => exact readAtom_suffix hatom
  | block _ _ ih => exact (ih.trans (Block.next_suffix _ _)).trans (List.suffix_cons _ _)
  | @emptyTable around text rest _ hclose =>
    have hskip := skipBlanks_suffix text
    rw [hclose] at hskip
    exact ((List.suffix_cons _ rest).trans hskip).trans (List.suffix_cons _ text)
  | @closed around reversed text rest hclose =>
    exact (List.suffix_cons _ rest).trans ((skipSpace_skips false text).suffix hclose)
  | last hentry _ _ hclose ih =>
    exact (((List.suffix_cons _ _).trans (Block.behind_suffix hclose)).trans ih).trans hentry.suffix
  | comma hentry _ _ hcomma _ ih ihmore =>
    have hmore := (ihmore.trans (Block.next_suffix _ _)).trans (List.suffix_cons ',' _)
    exact ((hmore.trans (Block.behind_suffix hcomma)).trans ih).trans hentry.suffix

theorem comma_suffix {block : Block} {key : Path} (hentry : Entry block text key entry)
    (h : Denotes room (.value around) entry v after) (hcomma : block.behind after = .ok (',' :: more)) :
    ',' :: more <:+ text :=
  ((Block.behind_suffix hcomma).trans h.suffix).trans hentry.suffix

/-- What follows an entry and its comma is shorter than the block from the entry on. -/
theorem length_later {block : Block} {key : Path} (hentry : Entry block text key entry)
    (h : Denotes room (.value around) entry v after) (hcomma : block.behind after = .ok (',' :: more)) :
    (block.next more).length < text.length := by
  have hnext := (block.next_suffix more).length_le
  have hmore := (comma_suffix hentry h hcomma).length_le
  rw [List.length_cons] at hmore
  omega

/-- A task costs its reader two calls for each character, and one for the first entry of a block. -/
def Task.cost (text : List Char) : Task → Nat
  | .value _ => 2 * text.length
  | .entries .. => 2 * text.length + 1

theorem readKey_head {key : Path} (h : readKey text = .ok (key, rest)) :
    ∃ c more, text = c :: more ∧ (c = '"' ∨ c = '\'' ∨ isBareKeyChar c = true) := by
  cases hpart : readKeyPart text with
  | error fault =>
    rw [readKey, readKeyParts, hpart] at h
    exact absurd h (by simp)
  | ok found =>
    rw [readKeyPart.eq_def] at hpart
    split at hpart
    next more => exact ⟨'\'', more, rfl, .inr (.inl rfl)⟩
    next more => exact ⟨'"', more, rfl, .inl rfl⟩
    next =>
      cases text with
      | nil => exact absurd hpart (by simp)
      | cons c more =>
        cases hc : isBareKeyChar c with
        | true => exact ⟨c, more, rfl, .inr (.inr hc)⟩
        | false => exact absurd hpart (by simp [hc])

theorem Entry.head_ne {closed : List Path} {t : Table} {key : Path}
    (h : Entry (.inlineTable closed t) text key entry) :
    ∃ c more, text = c :: more ∧ (c.toNat == 0x7D) = false := by
  cases h with
  | field hkey =>
    obtain ⟨c, more, htext, hc⟩ := readKey_head hkey
    refine ⟨c, more, htext, beq_eq_false_iff_ne.mpr fun hbrace => ?_⟩
    obtain rfl : c = Char.ofNat 0x7D := by rw [← hbrace, Char.ofNat_toNat]
    rcases hc with hc | hc | hc
    · exact absurd hc (by decide)
    · exact absurd hc (by decide)
    · exact absurd hc (by decide)

theorem Denotes.exists_entry {closed : List Path} {t : Table}
    (h : Denotes room (.entries around (.inlineTable closed t)) text v rest) :
    ∃ key entry, Entry (.inlineTable closed t) text key entry := by
  cases h with
  | last hentry => exact ⟨_, _, hentry⟩
  | comma hentry => exact ⟨_, _, hentry⟩

theorem Exceeds.exists_entry {block : Block} (h : Exceeds room (.entries around block) text fault) :
    ∃ key entry, Entry block text key entry := by
  cases h with
  | entry hentry => exact ⟨_, _, hentry⟩
  | later hentry => exact ⟨_, _, hentry⟩

section Value

variable (hroom : room around text = true)

include hroom

theorem readValue_string {chars : List Char} (h : readString? text = some (.ok (chars, rest))) :
    readValue room (fuel + 1) around text = .ok (.text (String.ofList chars), rest) := by
  rw [readValue.eq_def]
  simp only [hroom, h]
  rfl

theorem readValue_atom (hplain : Plain text) (h : readAtom text ≠ .error .malformed) :
    readValue room (fuel + 1) around text = readAtom text := by
  cases text with
  | nil => exact absurd rfl h
  | cons c text =>
    obtain ⟨hdouble, hsingle, hbracket, hbrace⟩ :
        c ≠ '"' ∧ c ≠ '\'' ∧ c ≠ '[' ∧ c ≠ Char.ofNat 0x7B := by
      simpa using hplain c rfl
    have hstring : readString? (c :: text) = none := by
      rw [readString?.eq_def]
      split
      next heq => exact absurd (List.cons.inj heq).1 hdouble
      next heq => exact absurd (List.cons.inj heq).1 hdouble
      next heq => exact absurd (List.cons.inj heq).1 hsingle
      next heq => exact absurd (List.cons.inj heq).1 hsingle
      next => rfl
    have hcode : (c.toNat == 0x7B) = false :=
      beq_eq_false_iff_ne.mpr fun hc => hbrace (by rw [← hc, Char.ofNat_toNat])
    rw [readValue.eq_def]
    simp only [hroom, hstring, beq_eq_false_iff_ne.mpr hbracket, hcode, Bool.not_true,
      Bool.false_eq_true, if_false]

end Value

theorem readValue_bracket (hroom : room around ('[' :: text) = true) :
    readValue room (fuel + 1) around ('[' :: text) =
      readArray room fuel (.array :: around) [] text := by
  rw [readValue.eq_def]
  simp only [hroom]
  rfl

theorem readValue_brace (hroom : room around (Char.ofNat 0x7B :: text) = true) {c : Char}
    (hskip : skipBlanks text = c :: more) :
    readValue room (fuel + 1) around (Char.ofNat 0x7B :: text) =
      if c.toNat == 0x7D then .ok (.table [], more)
      else readInline room fuel (.inlineTable :: around) [] [] (c :: more) := by
  have hstring : readString? (Char.ofNat 0x7B :: text) = none := rfl
  rw [readValue.eq_def]
  simp only [hroom, hstring, hskip]
  rfl

/-- The reader of arrays reads an item where no bracket closes the array. -/
theorem readArray_item {reversed : List Value} (hspace : skipSpace false text = .ok entry)
    (hopen : entry.head? ≠ some ']') :
    readArray room (fuel + 1) around reversed text =
      match readValue room fuel around entry with
      | .error fault => .error fault
      | .ok (v, rest) =>
        match skipSpace false rest with
        | .error fault => .error fault
        | .ok (']' :: rest) => .ok (.list (v :: reversed).reverse, rest)
        | .ok (',' :: rest) => readArray room fuel around (v :: reversed) rest
        | .ok _ => .error .malformed := by
  rw [readArray.eq_def]
  simp only [hspace]
  split
  next hfault => exact absurd hfault (by simp)
  next hclose =>
    obtain rfl := Except.ok.inj hclose
    exact absurd rfl hopen
  next hfront =>
    obtain rfl := Except.ok.inj hfront
    rfl

theorem Overlong.plain {digits : Nat} (h : Overlong digits text) : Plain text := by
  obtain ⟨c, more, rfl, hc⟩ := h.head
  intro d hd
  obtain rfl : c = d := Option.some_inj.mp hd
  rcases hc with rfl | rfl | ⟨hdigit, -⟩
  · decide
  · decide
  · intro hmem
    rcases by simpa using hmem with rfl | rfl | rfl | rfl <;> exact absurd hdigit (by decide)

/-- The reader of values goes into a block, if an inline table has an entry. -/
theorem readValue_block {e : Enclosure} (hroom : room around (e.opening :: text) = true)
    (hentry : e = .inlineTable → ∃ key entry, Entry e.start (e.start.next text) key entry) :
    readValue room (fuel + 1) around (e.opening :: text) =
      (Task.entries (e :: around) e.start).read room fuel (e.start.next text) := by
  cases e with
  | array => exact readValue_bracket hroom
  | inlineTable =>
    obtain ⟨key, entry, hentry⟩ := hentry rfl
    obtain ⟨c, more, hskip, hc⟩ := Entry.head_ne hentry
    have htext : skipBlanks text = c :: more := hskip
    refine (readValue_brace hroom htext).trans ?_
    rw [hc, hskip]
    rfl

section Entries

variable {block : Block} {key : Path} (hentry : Entry block text key entry)

include hentry

theorem read_of_fault (h : readValue room fuel around entry = .error fault) :
    (Task.entries around block).read room (fuel + 1) text = .error fault := by
  cases hentry with
  | item hspace hopen =>
    rw [Task.read, readArray_item hspace hopen, h]
  | field hkey =>
    rw [Task.read, readInline.eq_def]
    simp only [hkey, h]

theorem read_of_close {full : Block} (h : readValue room fuel around entry = .ok (v, after))
    (hadd : block.add key v = some full) (hclose : block.behind after = .ok (block.closing :: rest)) :
    (Task.entries around block).read room (fuel + 1) text = .ok (full.value, rest) := by
  cases hentry with
  | item hspace hopen =>
    obtain rfl := Option.some_inj.mp hadd
    have hskip : skipSpace false after = .ok (']' :: rest) := hclose
    rw [Task.read, readArray_item hspace hopen, h]
    simp only [hskip]
    rfl
  | field hkey =>
    obtain ⟨grown, hassign, rfl⟩ := Option.map_eq_some_iff.mp hadd
    have hskip : skipBlanks after = Char.ofNat 0x7D :: rest := Except.ok.inj hclose
    rw [Task.read, readInline.eq_def]
    simp only [hkey, h, hassign, hskip]
    rfl

theorem read_of_comma {grown : Block} (h : readValue room fuel around entry = .ok (v, after))
    (hadd : block.add key v = some grown) (hcomma : block.behind after = .ok (',' :: more)) :
    (Task.entries around block).read room (fuel + 1) text =
      (Task.entries around grown).read room fuel (block.next more) := by
  cases hentry with
  | item hspace hopen =>
    obtain rfl := Option.some_inj.mp hadd
    have hskip : skipSpace false after = .ok (',' :: more) := hcomma
    rw [Task.read, readArray_item hspace hopen, h]
    simp only [hskip]
    rfl
  | field hkey =>
    obtain ⟨grown, hassign, rfl⟩ := Option.map_eq_some_iff.mp hadd
    have hskip : skipBlanks after = ',' :: more := Except.ok.inj hcomma
    rw [Task.read, readInline.eq_def]
    simp only [hkey, h, hassign, hskip]
    rfl

end Entries

/-- A value that stands in front of a text is read. -/
theorem read_of_denotes {task : Task} (h : Denotes room task text v rest) (fuel : Nat)
    (hfuel : task.cost text < fuel) : task.read room fuel text = .ok (v, rest) := by
  induction h generalizing fuel with
  | string hroom hstring =>
    obtain ⟨fuel, rfl⟩ := exists_left_of_lt hfuel
    exact readValue_string hroom hstring
  | atom hroom hplain hatom =>
    obtain ⟨fuel, rfl⟩ := exists_left_of_lt hfuel
    exact (readValue_atom hroom hplain (by rw [hatom]; simp)).trans hatom
  | @block around e text rest v hroom h ih =>
    obtain ⟨fuel, rfl⟩ := exists_left_of_lt hfuel
    have hentry : e = .inlineTable → ∃ key entry, Entry e.start (e.start.next text) key entry := by
      rintro rfl
      exact h.exists_entry
    have hnext := (e.start.next_suffix text).length_le
    rw [Task.cost, List.length_cons] at hfuel
    exact (readValue_block hroom hentry).trans (ih fuel (by rw [Task.cost]; omega))
  | emptyTable hroom hclose =>
    obtain ⟨fuel, rfl⟩ := exists_left_of_lt hfuel
    exact readValue_brace hroom hclose
  | closed hclose =>
    obtain ⟨fuel, rfl⟩ := exists_left_of_lt hfuel
    rw [Task.read, readArray.eq_def]
    simp only [hclose]
  | @last around block full text entry after rest key v hentry h hadd hclose ih =>
    obtain ⟨fuel, rfl⟩ := exists_left_of_lt hfuel
    have hlength := hentry.suffix.length_le
    rw [Task.cost] at hfuel
    exact read_of_close hentry (ih fuel (by rw [Task.cost]; omega)) hadd hclose
  | @comma around block grown text entry after more rest key v w hentry h hadd hcomma hmore ih ihmore =>
    obtain ⟨fuel, rfl⟩ := exists_left_of_lt hfuel
    have hlength := hentry.suffix.length_le
    have hlater := length_later hentry h hcomma
    rw [Task.cost] at hfuel
    exact (read_of_comma hentry (ih fuel (by rw [Task.cost]; omega)) hadd hcomma).trans
      (ihmore fuel (by rw [Task.cost]; omega))

/-- A value on the way to which a limit is met is refused for that limit. -/
theorem read_of_exceeds {task : Task} (h : Exceeds room task text fault) (fuel : Nat)
    (hfuel : task.cost text < fuel) : task.read room fuel text = .error fault := by
  induction h generalizing fuel with
  | crowded hroom =>
    obtain ⟨fuel, rfl⟩ := exists_left_of_lt hfuel
    rw [Task.read, readValue.eq_def]
    simp only [hroom]
    rfl
  | long hroom h =>
    obtain ⟨fuel, rfl⟩ := exists_left_of_lt hfuel
    have hread := readAtom_long_iff.mpr h
    exact (readValue_atom hroom h.plain (by rw [hread]; simp)).trans hread
  | @inside around e text fault hroom h ih =>
    obtain ⟨fuel, rfl⟩ := exists_left_of_lt hfuel
    have hnext := (e.start.next_suffix text).length_le
    rw [Task.cost, List.length_cons] at hfuel
    exact (readValue_block hroom fun _ => h.exists_entry).trans (ih fuel (by rw [Task.cost]; omega))
  | @entry around block text entry key fault hentry h ih =>
    obtain ⟨fuel, rfl⟩ := exists_left_of_lt hfuel
    have hlength := hentry.suffix.length_le
    rw [Task.cost] at hfuel
    exact read_of_fault hentry (ih fuel (by rw [Task.cost]; omega))
  | @later around block grown text entry after more key v fault hentry hvalue hadd hcomma h ih =>
    obtain ⟨fuel, rfl⟩ := exists_left_of_lt hfuel
    have hlength := hentry.suffix.length_le
    have hlater := length_later hentry hvalue hcomma
    rw [Task.cost] at hfuel
    exact (read_of_comma hentry (read_of_denotes hvalue fuel (by rw [Task.cost]; omega)) hadd
      hcomma).trans (ih fuel (by rw [Task.cost]; omega))

/-! ### Documents -/

variable {d d' : Draft} {t : Table}

/-- The statement in front of a text, with what it makes of a draft and the rest behind it. -/
inductive Statement (room : Room) (d : Draft) : (text : List Char) → Draft → (rest : List Char) → Prop
  | blank {text : List Char} (hend : ∀ c ∈ text.head?, c = '\n' ∨ c = '#') : Statement room d text d text
  | header {d' : Draft} {text rest : List Char} (hheader : readHeader d text = .ok (d', rest)) :
      Statement room d ('[' :: text) d' rest
  | assignment {d' : Draft} {text value rest : List Char} {key : Path} {v : Value}
      (hkey : readKey text = .ok (key, '=' :: value))
      (hvalue : Denotes room (.value []) (skipBlanks value) v rest) (hassign : d.assign key v = some d') :
      Statement room d text d' rest

/-- The table that the lines of a text make of a draft. -/
inductive Lines (room : Room) : Draft → (text : List Char) → Table → Prop
  | last {d d' : Draft} {text rest : List Char} (h : Statement room d (skipBlanks text) d' rest)
      (hend : skipComment (skipBlanks rest) = .ok []) : Lines room d text d'.table
  | next {d d' : Draft} {text rest more : List Char} {t : Table}
      (h : Statement room d (skipBlanks text) d' rest)
      (hend : skipComment (skipBlanks rest) = .ok ('\n' :: more)) (hmore : Lines room d' more t) :
      Lines room d text t

/-- On the way to the end of the lines, a limit is met. -/
inductive Breaks (room : Room) : Draft → (text : List Char) → Fault → Prop
  | here {d : Draft} {text value : List Char} {key : Path} {fault : Fault}
      (hkey : readKey (skipBlanks text) = .ok (key, '=' :: value))
      (h : Exceeds room (.value []) (skipBlanks value) fault) : Breaks room d text fault
  | later {d d' : Draft} {text rest more : List Char} {fault : Fault}
      (h : Statement room d (skipBlanks text) d' rest)
      (hend : skipComment (skipBlanks rest) = .ok ('\n' :: more)) (hmore : Breaks room d' more fault) :
      Breaks room d text fault

/-- A text is a document of a table. -/
def Document (room : Room) (text : List Char) (t : Table) : Prop :=
  Lines room {} (Text.unifyNewlines text) t

/-- A text that starts like a document goes over a limit of the reader. -/
def Overruns (room : Room) (text : List Char) (fault : Fault) : Prop :=
  Breaks room {} (Text.unifyNewlines text) fault

/-! ### The reader of documents keeps to the grammar -/

theorem accepted_takes (draft : Option Draft) (rest : List Char) : Takes rest (accepted draft rest) := by
  cases draft with
  | none => rfl
  | some => exact List.suffix_rfl

theorem readHeader_takes (d : Draft) (text : List Char) : Takes text (readHeader d text) := by
  fun_cases readHeader d text with
  | case1 _ rest path left hread =>
    have hleft : left <:+ skipBlanks rest :=
      ((List.suffix_cons ']' left).trans (List.suffix_cons ']' _)).trans ((readKey_takes _).suffix hread)
    exact (accepted_takes _ left).of_suffix
      ((hleft.trans (skipBlanks_suffix rest)).trans (List.suffix_cons '[' rest))
  | case2 => rfl
  | case3 rest fault hread => exact (readKey_takes _).malformed hread
  | case4 d _ path left hread =>
    have hleft : left <:+ skipBlanks text :=
      (List.suffix_cons ']' left).trans ((readKey_takes _).suffix hread)
    rw [hread]
    exact (accepted_takes _ left).of_suffix (hleft.trans (skipBlanks_suffix text))
  | case5 d _ found hfound hread =>
    rw [hread]
    split
    next heq => exact absurd (Except.ok.inj heq) (hfound _ _)
    next => rfl
    next heq => exact absurd heq (by simp)
  | case6 d _ fault hread =>
    rw [hread]
    exact (readKey_takes _).malformed hread

/-- A statement is read, or an assignment meets a limit, or the text is malformed. -/
theorem readStatement_cases (room : Room) (d : Draft) (text : List Char) :
    (∃ d' rest, readStatement room d text = .ok (d', rest) ∧ Statement room d text d' rest) ∨
    (∃ key value fault, readStatement room d text = .error fault ∧
      readKey text = .ok (key, '=' :: value) ∧ Exceeds room (.value []) (skipBlanks value) fault) ∨
    readStatement room d text = .error .malformed := by
  rw [readStatement.eq_def]
  split
  next => exact .inl ⟨d, [], rfl, .blank (by simp)⟩
  next c rest =>
    split
    next hend => exact .inl ⟨d, c :: rest, rfl, .blank (by simpa using hend)⟩
    next =>
      split
      next hc =>
        obtain rfl := eq_of_beq hc
        cases hread : readHeader d rest with
        | error fault =>
          exact .inr (.inr (congrArg Except.error ((readHeader_takes d rest).malformed hread)))
        | ok found => exact .inl ⟨found.1, found.2, rfl, .header hread⟩
      next =>
        rw [readAssignment]
        split
        next key value hread =>
          have hvalue := read_follows room (2 * (c :: rest).length + 2) (.value []) (skipBlanks value)
          rw [Task.read] at hvalue
          split
          next v left hleft =>
            rw [hleft] at hvalue
            cases hassign : d.assign key v with
            | none => exact .inr (.inr rfl)
            | some d' => exact .inl ⟨d', left, rfl, .assignment hread hvalue hassign⟩
          next fault hfault =>
            rw [hfault] at hvalue
            by_cases hmalformed : fault = .malformed
            · exact .inr (.inr (congrArg Except.error hmalformed))
            · exact .inr (.inl ⟨key, value, fault, rfl, hread, hvalue hmalformed⟩)
        next => exact .inr (.inr rfl)
        next fault hread =>
          exact .inr (.inr (congrArg Except.error ((readKey_takes (c :: rest)).malformed hread)))

/-- The reader of lines goes on behind a statement. -/
theorem readLines_of_statement (h : readStatement room d (skipBlanks text) = .ok (d', rest)) :
    readLines room (fuel + 1) d text =
      match skipComment (skipBlanks rest) with
      | .error fault => .error fault
      | .ok [] => .ok d'
      | .ok ('\n' :: more) => readLines room fuel d' more
      | .ok _ => .error .malformed := by
  rw [readLines]
  rcases hread : readStatement room d (skipBlanks text) with fault | ⟨made, left⟩
  · exact absurd (hread.symm.trans h) (by simp)
  · obtain ⟨rfl, rfl⟩ := Prod.mk.inj (Except.ok.inj (hread.symm.trans h))
    rfl

/-- The lines make a table of the draft, or a limit is met, or the text is malformed. -/
theorem readLines_cases (room : Room) (fuel : Nat) (d : Draft) (text : List Char) :
    (∃ d', readLines room fuel d text = .ok d' ∧ Lines room d text d'.table) ∨
    (∃ fault, readLines room fuel d text = .error fault ∧ Breaks room d text fault) ∨
    readLines room fuel d text = .error .malformed := by
  induction fuel generalizing d text with
  | zero => exact .inr (.inr rfl)
  | succ fuel ih =>
    rcases readStatement_cases room d (skipBlanks text) with
      ⟨d', rest, hread, hstatement⟩ | ⟨key, value, fault, hread, hkey, hexceeds⟩ | hread
    · rw [readLines_of_statement hread]
      split
      next fault hend =>
        exact .inr (.inr (congrArg Except.error ((skipComment_skips _).malformed hend)))
      next hend => exact .inl ⟨d', rfl, .last hstatement hend⟩
      next more hend =>
        rcases ih d' more with ⟨made, hmade, hlines⟩ | ⟨fault, hfault, hbreaks⟩ | hmalformed
        · exact .inl ⟨made, hmade, .next hstatement hend hlines⟩
        · exact .inr (.inl ⟨fault, hfault, .later hstatement hend hbreaks⟩)
        · exact .inr (.inr hmalformed)
      next => exact .inr (.inr rfl)
    · refine .inr (.inl ⟨fault, ?_, .here hkey hexceeds⟩)
      rw [readLines, hread]
    · refine .inr (.inr ?_)
      rw [readLines, hread]

/-! ### The grammar is what the reader of documents does -/

theorem Statement.suffix (h : Statement room d text d' rest) : rest <:+ text := by
  cases h with
  | blank => exact List.suffix_rfl
  | @header _ text _ hheader =>
    exact ((readHeader_takes d text).suffix hheader).trans (List.suffix_cons '[' text)
  | assignment hkey hvalue => exact hvalue.suffix.trans (suffix_of_readKey hkey)

theorem lineFeed_suffix (h : Statement room d (skipBlanks text) d' rest)
    (hend : skipComment (skipBlanks rest) = .ok ('\n' :: more)) : '\n' :: more <:+ text :=
  ((((skipComment_skips _).suffix hend).trans (skipBlanks_suffix rest)).trans h.suffix).trans
    (skipBlanks_suffix text)

/-- What follows a statement and its line feed is shorter than the text from the statement on. -/
theorem length_more (h : Statement room d (skipBlanks text) d' rest)
    (hend : skipComment (skipBlanks rest) = .ok ('\n' :: more)) : more.length < text.length :=
  (lineFeed_suffix h hend).length_le

section Assignment

variable {key : Path} {value : List Char} (hkey : readKey text = .ok (key, '=' :: value))

include hkey

theorem length_value : (skipBlanks value).length < text.length := by
  have hlength := (skipBlanks_suffix value).length_le
  have hvalue := ((readKey_takes text).suffix hkey).length_le
  rw [List.length_cons] at hvalue
  omega

/-- What starts with a key is read as an assignment. -/
theorem readStatement_assignment (room : Room) (d : Draft) :
    readStatement room d text =
      match readValue room (2 * text.length + 2) [] (skipBlanks value) with
      | .ok (v, rest) => accepted (d.assign key v) rest
      | .error fault => .error fault := by
  obtain ⟨c, more, rfl, hc⟩ := readKey_head hkey
  have hline : (c == '\n' || c == '#') = false ∧ (c == '[') = false := by
    have hne : c ≠ '\n' ∧ c ≠ '#' ∧ c ≠ '[' := by
      refine ⟨?_, ?_, ?_⟩
      all_goals
        rintro rfl
        rcases hc with hc | hc | hc <;> exact absurd hc (by decide)
    simpa [and_assoc] using hne
  rw [readStatement.eq_def]
  simp only [hline, Bool.false_eq_true, if_false]
  rw [readAssignment, hkey]
  rfl

end Assignment

theorem readStatement_of_statement (h : Statement room d text d' rest) :
    readStatement room d text = .ok (d', rest) := by
  cases h with
  | blank hend =>
    cases text with
    | nil => rfl
    | cons c more =>
      have hc : (c == '\n' || c == '#') = true := by simpa using hend c rfl
      rw [readStatement.eq_def]
      simp only [hc, if_true]
  | header hheader => exact hheader
  | @assignment _ _ value _ key v hkey hvalue hassign =>
    have hlength := length_value hkey
    have hread := read_of_denotes hvalue (2 * text.length + 2) (by rw [Task.cost]; omega)
    rw [Task.read] at hread
    rw [readStatement_assignment hkey room d, hread]
    simp only [hassign]
    rfl

theorem readLines_of_lines (h : Lines room d text t) (hfuel : text.length < fuel) :
    (readLines room fuel d text).map Draft.table = .ok t := by
  induction h generalizing fuel with
  | last hstatement hend =>
    obtain ⟨fuel, rfl⟩ := exists_left_of_lt hfuel
    rw [readLines_of_statement (readStatement_of_statement hstatement)]
    simp only [hend]
    rfl
  | next hstatement hend _ ih =>
    obtain ⟨fuel, rfl⟩ := exists_left_of_lt hfuel
    have hlength := length_more hstatement hend
    rw [readLines_of_statement (readStatement_of_statement hstatement)]
    simp only [hend]
    exact ih (by omega)

theorem readLines_of_breaks (h : Breaks room d text fault) (hfuel : text.length < fuel) :
    readLines room fuel d text = .error fault := by
  induction h generalizing fuel with
  | @here d text value key fault hkey h =>
    obtain ⟨fuel, rfl⟩ := exists_left_of_lt hfuel
    have hlength := length_value hkey
    have hread := read_of_exceeds h (2 * (skipBlanks text).length + 2) (by rw [Task.cost]; omega)
    rw [Task.read] at hread
    rw [readLines, readStatement_assignment hkey room d, hread]
  | later hstatement hend _ ih =>
    obtain ⟨fuel, rfl⟩ := exists_left_of_lt hfuel
    have hlength := length_more hstatement hend
    rw [readLines_of_statement (readStatement_of_statement hstatement)]
    simp only [hend]
    exact ih (by omega)

theorem Breaks.ne_malformed (h : Breaks room d text fault) : fault ≠ .malformed := by
  induction h with
  | here _ h => exact h.ne_malformed
  | later _ _ _ ih => exact ih

theorem parse_of_document (h : Document room text t) : parse text room = .ok t :=
  readLines_of_lines h (Nat.lt_succ_self _)

theorem parse_of_overruns (h : Overruns room text fault) : parse text room = .error fault := by
  rw [parse, readLines_of_breaks h (Nat.lt_succ_self _)]
  rfl

/-- A text is read as the table of which it is a document, or for the limit that it goes over, or it is
malformed. -/
theorem parse_cases (room : Room) (text : List Char) :
    (∃ t, parse text room = .ok t ∧ Document room text t) ∨
    (∃ fault, parse text room = .error fault ∧ Overruns room text fault) ∨
    parse text room = .error .malformed := by
  rw [parse]
  rcases readLines_cases room ((Text.unifyNewlines text).length + 1) {} (Text.unifyNewlines text) with
    ⟨made, hread, hlines⟩ | ⟨fault, hread, hbreaks⟩ | hread
  · exact .inl ⟨made.table, congrArg _ hread, hlines⟩
  · exact .inr (.inl ⟨fault, congrArg _ hread, hbreaks⟩)
  · exact .inr (.inr (congrArg _ hread))

/-- A text is read as a table exactly if it is a document of that table. -/
theorem parse_eq_ok_iff : parse text room = .ok t ↔ Document room text t := by
  refine ⟨fun hread => ?_, parse_of_document⟩
  rcases parse_cases room text with ⟨read, hread', h⟩ | ⟨fault, hread', -⟩ | hread'
  · obtain rfl := Except.ok.inj (hread'.symm.trans hread)
    exact h
  · exact absurd (hread'.symm.trans hread) (by simp)
  · exact absurd (hread'.symm.trans hread) (by simp)

/-- A text is refused for a limit exactly if it goes over that limit. -/
theorem parse_eq_error_iff (hfault : fault ≠ .malformed) :
    parse text room = .error fault ↔ Overruns room text fault := by
  refine ⟨fun hread => ?_, parse_of_overruns⟩
  rcases parse_cases room text with ⟨read, hread', -⟩ | ⟨found, hread', h⟩ | hread'
  · exact absurd (hread'.symm.trans hread) (by simp)
  · obtain rfl := Except.error.inj (hread'.symm.trans hread)
    exact h
  · exact absurd (Except.error.inj (hread'.symm.trans hread)).symm hfault

/-- A text is malformed exactly if it is no document and goes over no limit. -/
theorem parse_eq_malformed_iff :
    parse text room = .error .malformed ↔
      (∀ t, ¬ Document room text t) ∧ ∀ fault, ¬ Overruns room text fault := by
  refine ⟨fun hread => ⟨fun t h => ?_, fun fault h => ?_⟩, fun ⟨hdocument, hoverruns⟩ => ?_⟩
  · exact absurd (hread.symm.trans (parse_of_document h)) (by simp)
  · exact h.ne_malformed (Except.error.inj (hread.symm.trans (parse_of_overruns h))).symm
  · rcases parse_cases room text with ⟨t, -, h⟩ | ⟨fault, -, h⟩ | hread
    · exact absurd h (hdocument t)
    · exact absurd h (hoverruns fault)
    · exact hread

/-! ### The place of a limit -/

/-- Why a reader stops at a place inside of some enclosures: there is no room for the value there, or an
integer there is too long. -/
inductive Cause (room : Room) (around : List Enclosure) (text : List Char) : Fault → Prop
  | crowded (hroom : room around text = false) : Cause room around text .tooDeep
  | long {digits : Nat} (h : Overlong digits text) : Cause room around text (.integerTooLong digits)

/-- Some place of a text is the cause of a fault, and of the enclosures there but those around the text each
was opened by a bracket before the place. -/
def Place (room : Room) (around : List Enclosure) (text : List Char) (fault : Fault) : Prop :=
  ∃ front rest inner, text = front ++ rest ∧ Cause room (inner ++ around) rest fault ∧
    ∀ e : Enclosure, inner.count e ≤ front.count e.opening

theorem Place.of_suffix (h : Place room around rest fault) (hrest : rest <:+ text) :
    Place room around text fault := by
  obtain ⟨skipped, rfl⟩ := hrest
  obtain ⟨front, left, inner, rfl, hcause, hcount⟩ := h
  refine ⟨skipped ++ front, left, inner, (List.append_assoc ..).symm, hcause, fun e => ?_⟩
  have hle := hcount e
  rw [List.count_append]
  omega

/-- A place inside of an enclosure is a place of the text from its bracket on. -/
theorem Place.inside {e : Enclosure} (h : Place room (e :: around) text fault) :
    Place room around (e.opening :: text) fault := by
  obtain ⟨front, left, inner, rfl, hcause, hcount⟩ := h
  refine ⟨e.opening :: front, left, inner ++ [e], rfl, by simpa using hcause, fun other => ?_⟩
  have hle := hcount other
  rw [List.count_append, List.count_singleton, List.count_cons]
  cases e <;> cases other <;> simp at hle ⊢ <;> omega

/-- The enclosures around a task. -/
def Task.enclosures : Task → List Enclosure
  | .value around => around
  | .entries around _ => around

/-- A limit that is met has its cause in one place of the text. -/
theorem Exceeds.cause {task : Task} (h : Exceeds room task text fault) :
    Place room task.enclosures text fault := by
  induction h with
  | crowded hroom => exact ⟨[], _, [], rfl, .crowded hroom, fun _ => Nat.zero_le _⟩
  | long _ h => exact ⟨[], _, [], rfl, .long h, fun _ => Nat.zero_le _⟩
  | inside _ _ ih => exact (ih.of_suffix (Block.next_suffix _ _)).inside
  | entry hentry _ ih => exact ih.of_suffix hentry.suffix
  | later hentry hvalue _ hcomma _ ih =>
    exact ih.of_suffix
      (((Block.next_suffix _ _).trans (List.suffix_cons ',' _)).trans (comma_suffix hentry hvalue hcomma))

/-- A text that goes over a limit does so in one place. -/
theorem Breaks.cause (h : Breaks room d text fault) : Place room [] text fault := by
  induction h with
  | @here d text value key fault hkey h =>
    exact h.cause.of_suffix ((suffix_of_readKey hkey).trans (skipBlanks_suffix text))
  | @later d d' text rest more fault hstatement hend _ ih =>
    exact ih.of_suffix ((List.suffix_cons '\n' more).trans (lineFeed_suffix hstatement hend))

end AnalyzerBridge.Toml
