/-
What the writer of JSON writes, its reader reads.

* `readItems_following`, `readFields_following` — the entries of a block are read one
  after the other, to its closing character;
* `spells_prettyAt` — hence a value comes back from its lines, at every level of
  indentation;
* `parse_pretty` — and so does a value that is written by itself, with the fields of
  its tables in the order of their names (`sorted`);
* `sorted_table_get?` — an order that no lookup sees.

Design notes: `Spells` asks only that what follows a text continues no number, and
blocks always see to that.  Its bound on the fuel is twice the length of the text: a
list and its first item start at one place, so that a step to an item may cost fuel
without a character, and the separator in front of the next item pays for both.
-/
import AnalyzerBridge.Proofs.JsonAtom
import AnalyzerBridge.Proofs.Table

namespace AnalyzerBridge.Json

variable {limit depth fuel : Nat} {text rest : List Char} {v : Value}

/-! ### Blocks -/

/-- The text starts with a character that is not blank. -/
def Solid (text : List Char) : Prop :=
  ∃ c more, text = c :: more ∧ isBlank c = false

theorem Solid.skipBlanks (h : Solid text) (rest : List Char) :
    skipBlanks (text ++ rest) = text ++ rest := by
  obtain ⟨c, more, rfl, hc⟩ := h
  exact List.dropWhile_cons_of_neg (by simp [hc])

/-- The text spells the value: it is read as the value in front of anything that continues no number. -/
structure Spells (limit depth : Nat) (text : List Char) (v : Value) : Prop where
  solid : Solid text
  unclosed : ∀ more, text ≠ ']' :: more
  read : ∀ fuel rest, 2 * text.length < fuel → EndsNumber rest →
    readValue (some limit) fuel depth (text ++ rest) = .ok (v, rest)

theorem Spells.of_succ {c : Char} {more : List Char} (hblank : isBlank c = false) (hclose : c ≠ ']')
    (h : ∀ fuel rest, 2 * (more.length + 1) ≤ fuel → EndsNumber rest →
      readValue (some limit) (fuel + 1) depth (c :: (more ++ rest)) = .ok (v, rest)) :
    Spells limit depth (c :: more) v := by
  refine ⟨⟨c, more, rfl, hblank⟩, fun _ heq => hclose (List.cons.inj heq).1, ?_⟩
  intro fuel rest hfuel hrest
  rw [List.length_cons] at hfuel
  obtain ⟨fuel, rfl⟩ : ∃ n, fuel = n + 1 := ⟨fuel - 1, by omega⟩
  exact h fuel rest (by omega) hrest

/-- The blanks in front of a line. -/
def margin (level : Nat) : List Char :=
  List.replicate (2 * level) ' '

/-- What follows an entry of a block: the other entries, each on its line, and the closing character. -/
def following (level : Nat) (closing : Char) : List (List Char) → List Char
  | [] => '\n' :: (margin level ++ [closing])
  | entry :: entries =>
    ',' :: '\n' :: (margin (level + 1) ++ (entry ++ following level closing entries))

theorem following_toList (level : Nat) (close : Char) {closing : String}
    (hclosing : closing.toList = [close]) (entry : String) (entries : List String) :
    (",\n".intercalate ((entry :: entries).map fun e => indentation (level + 1) ++ e) ++ "\n" ++
        indentation level ++ closing).toList =
      margin (level + 1) ++ (entry.toList ++ following level close (entries.map String.toList)) := by
  induction entries generalizing entry with
  | nil =>
    simp only [List.map_cons, List.map_nil, String.intercalate_singleton, String.toList_append, hclosing,
      indentation, String.toList_ofList, following, margin, List.append_assoc]
    rfl
  | cons next entries ih =>
    have hnext := ih next
    simp only [List.map_cons, String.toList_append] at hnext
    simp only [List.map_cons, String.intercalate_cons_cons, String.toList_append, following,
      indentation, String.toList_ofList, List.append_assoc] at hnext ⊢
    rw [hnext]
    rfl

theorem block_toList (level : Nat) (close : Char) {opening closing : String}
    (hclosing : closing.toList = [close]) (entry : String) (entries : List String) :
    (block level opening closing (entry :: entries)).toList =
      opening.toList ++ '\n' :: (margin (level + 1) ++
        (entry.toList ++ following level close (entries.map String.toList))) := by
  have hentries := following_toList level close hclosing entry entries
  rw [block, List.isEmpty_cons, if_neg Bool.false_ne_true]
  simp only [String.toList_append, List.append_assoc] at hentries ⊢
  rw [hentries]
  rfl

theorem block_nil_toList (level : Nat) (first close : Char) {opening closing : String}
    (hopening : opening.toList = [first]) (hclosing : closing.toList = [close]) :
    (block level opening closing []).toList = [first, close] := by
  rw [block, List.isEmpty_nil, if_pos rfl, String.toList_append, hopening, hclosing]
  rfl

/-- A line of its own is read from its first character that is not blank. -/
theorem skipBlanks_line (level : Nat) (h : Solid text) (rest : List Char) :
    skipBlanks ('\n' :: (margin level ++ (text ++ rest))) = text ++ rest := by
  have hmargin : ∀ c ∈ margin level, isBlank c = true := by
    intro c hc
    obtain rfl := List.eq_of_mem_replicate hc
    rfl
  have hline : ∀ c ∈ '\n' :: margin level, isBlank c = true := List.forall_mem_cons.mpr ⟨rfl, hmargin⟩
  show skipBlanks (('\n' :: margin level) ++ (text ++ rest)) = _
  rw [skipBlanks, List.dropWhile_append_of_pos hline]
  exact h.skipBlanks rest

theorem endsNumber_following (level : Nat) (close : Char) (entries : List (List Char))
    (rest : List Char) : EndsNumber (following level close entries ++ rest) := by
  cases entries with
  | nil => exact endsNumber_cons (.inr rfl) _
  | cons entry entries => exact endsNumber_cons (.inl rfl) _

theorem two_le_length_following (level : Nat) (close : Char) (entries : List (List Char)) :
    2 ≤ (following level close entries).length := by
  cases entries with
  | nil => simp [following]
  | cons entry entries => simp [following]

theorem skipBlanks_following_nil (level : Nat) (close : Char) (hclose : isBlank close = false)
    (rest : List Char) :
    skipBlanks (following level close [] ++ rest) = close :: rest := by
  have hline := skipBlanks_line level ⟨close, [], rfl, hclose⟩ rest
  rwa [← List.append_assoc] at hline

theorem skipBlanks_following_cons (level : Nat) (close : Char) {entry : List Char}
    (hentry : Solid entry) (entries : List (List Char)) (rest : List Char) :
    ∃ next, skipBlanks (following level close (entry :: entries) ++ rest) = ',' :: next ∧
      skipBlanks next = entry ++ (following level close entries ++ rest) := by
  refine ⟨_, ?_, skipBlanks_line (level + 1) hentry _⟩
  have hcomma : Solid [','] := ⟨',', [], rfl, rfl⟩
  rw [following]
  simp only [List.cons_append, List.append_assoc]
  exact hcomma.skipBlanks _

section Block

variable {write : Value → List Char} {back : Value → Value}

/-- The items of a list are read one after the other, to the closing bracket. -/
theorem readItems_following (fuel level : Nat) (v : Value) (items : List Value)
    (h : ∀ w ∈ v :: items, Spells limit depth (write w) (back w)) (reversed : List Value)
    (rest : List Char)
    (hfuel : 2 * (write v ++ following level ']' (items.map write)).length < fuel) :
    readItems (some limit) fuel depth reversed
        (write v ++ (following level ']' (items.map write) ++ rest)) =
      .ok (.list (reversed.reverse ++ (v :: items).map back), rest) := by
  induction items generalizing v reversed fuel with
  | nil =>
    obtain ⟨fuel, rfl⟩ : ∃ n, fuel = n + 1 := ⟨fuel - 1, by omega⟩
    have htwo := two_le_length_following level ']' []
    rw [List.map_nil, List.length_append] at hfuel
    have hread := (h v List.mem_cons_self).read fuel (following level ']' [] ++ rest) (by omega)
      (endsNumber_following level ']' [] rest)
    have hskip := skipBlanks_following_nil level ']' rfl rest
    rw [List.map_nil, readItems, hread]
    simp only [hskip]
    rw [List.reverse_cons]
    rfl
  | cons w items ih =>
    obtain ⟨hv, hitems⟩ := List.forall_mem_cons.mp h
    obtain ⟨fuel, rfl⟩ : ∃ n, fuel = n + 1 := ⟨fuel - 1, by omega⟩
    rw [List.map_cons, following, List.length_append] at hfuel
    simp only [List.length_cons, List.length_append] at hfuel
    have hread := hv.read fuel (following level ']' ((w :: items).map write) ++ rest) (by omega)
      (endsNumber_following level ']' _ rest)
    obtain ⟨next, hcomma, hnext⟩ := skipBlanks_following_cons level ']'
      (hitems w List.mem_cons_self).solid (items.map write) rest
    have hrest := ih fuel w hitems (back v :: reversed)
      (by rw [List.length_append]; omega)
    rw [readItems, hread]
    simp only [List.map_cons, hcomma, hnext]
    rw [hrest, List.reverse_cons, List.append_assoc]
    rfl

/-- A field as an entry of a block. -/
def fieldText (write : Value → List Char) (field : String × Value) : List Char :=
  (stringText (LooseText.ofString field.1)).toList ++ ':' :: ' ' :: write field.2

theorem fieldText_cons (write : Value → List Char) (field : String × Value) :
    ∃ more, fieldText write field = '"' :: more := by
  rw [fieldText, stringText_toList]
  exact ⟨_, rfl⟩

theorem length_lt_fieldText (write : Value → List Char) (field : String × Value) :
    (write field.2).length < (fieldText write field).length := by
  rw [fieldText, List.length_append, List.length_cons, List.length_cons]
  omega

/-- A field is read, and a comma after it leads to the next field, a brace ends the table. -/
theorem readFields_field (fuel : Nat) {field : String × Value}
    (h : Spells limit depth (write field.2) v) (reversed : List (String × Value))
    (hfuel : 2 * (write field.2).length < fuel) (hrest : EndsNumber rest) :
    (∀ next, skipBlanks rest = ',' :: next →
      readFields (some limit) (fuel + 1) depth reversed (fieldText write field ++ rest) =
        readFields (some limit) fuel depth ((field.1, v) :: reversed) (skipBlanks next)) ∧
    (∀ next, skipBlanks rest = Char.ofNat 0x7D :: next →
      readFields (some limit) (fuel + 1) depth reversed (fieldText write field ++ rest) =
        .ok (.table (Table.ofFields ((field.1, v) :: reversed).reverse), next)) := by
  obtain ⟨body, hbody, hname⟩ := readString_stringText field.1
  have hread := h.read fuel rest hfuel hrest
  have htext : fieldText write field ++ rest =
      '"' :: (body ++ ':' :: ' ' :: (write field.2 ++ rest)) := by
    rw [fieldText, hbody]
    simp only [List.cons_append, List.append_assoc]
  have hcolon : skipBlanks (':' :: ' ' :: (write field.2 ++ rest)) =
    ':' :: ' ' :: (write field.2 ++ rest) := rfl
  have hvalue : skipBlanks (' ' :: (write field.2 ++ rest)) = write field.2 ++ rest :=
    h.solid.skipBlanks rest
  have hadd : addField (LooseText.ofString field.1) v reversed = (field.1, v) :: reversed := by
    rw [addField, toString?_ofString]
  rw [htext, readFields, hname]
  simp only [hcolon, hvalue, hread, hadd]
  constructor
  · intro next hnext
    rw [hnext]
    rfl
  · intro next hnext
    rw [hnext]
    rfl

/-- The fields of a table are read one after the other, to the closing brace. -/
theorem readFields_following (fuel level : Nat) (field : String × Value)
    (fields : List (String × Value))
    (h : ∀ f ∈ field :: fields, Spells limit depth (write f.2) (back f.2))
    (reversed : List (String × Value)) (rest : List Char)
    (hfuel : 2 * (fieldText write field ++
      following level (Char.ofNat 0x7D) (fields.map (fieldText write))).length < fuel) :
    readFields (some limit) fuel depth reversed
        (fieldText write field ++
          (following level (Char.ofNat 0x7D) (fields.map (fieldText write)) ++ rest)) =
      .ok (.table (Table.ofFields (reversed.reverse ++
        (field :: fields).map fun f => (f.1, back f.2))), rest) := by
  induction fields generalizing field reversed fuel with
  | nil =>
    obtain ⟨fuel, rfl⟩ : ∃ n, fuel = n + 1 := ⟨fuel - 1, by omega⟩
    have hlength := length_lt_fieldText write field
    rw [List.length_append] at hfuel
    have hskip := skipBlanks_following_nil level (Char.ofNat 0x7D) rfl rest
    have hread := readFields_field fuel (h field List.mem_cons_self) reversed (by omega)
      (endsNumber_following level (Char.ofNat 0x7D) [] rest)
    rw [List.map_nil, hread.2 rest hskip, List.reverse_cons]
    rfl
  | cons next fields ih =>
    obtain ⟨hfield, hfields⟩ := List.forall_mem_cons.mp h
    obtain ⟨fuel, rfl⟩ : ∃ n, fuel = n + 1 := ⟨fuel - 1, by omega⟩
    have hlength := length_lt_fieldText write field
    rw [List.map_cons, following, List.length_append] at hfuel
    simp only [List.length_cons, List.length_append] at hfuel
    obtain ⟨more, hmore⟩ := fieldText_cons write next
    obtain ⟨after, hcomma, hafter⟩ := skipBlanks_following_cons level (Char.ofNat 0x7D)
      ⟨'"', more, hmore, rfl⟩ (fields.map (fieldText write)) rest
    have hrest := ih fuel next hfields ((field.1, back field.2) :: reversed)
      (by rw [List.length_append]; omega)
    have hread := readFields_field fuel hfield reversed (by omega)
      (endsNumber_following level (Char.ofNat 0x7D) (fieldText write next :: fields.map (fieldText write))
        rest)
    rw [List.map_cons, hread.1 after hcomma, hafter, hrest, List.reverse_cons, List.append_assoc]
    rfl

end Block

/-! ### Values -/

theorem ofFields_append (done : List (String × Value)) {fields : List (String × Value)}
    (h : ((done ++ fields).map Prod.fst).Nodup) :
    fields.foldl (fun t field => Table.put t field.1 field.2) done = done ++ fields := by
  induction fields generalizing done with
  | nil => exact (List.append_nil done).symm
  | cons field fields ih =>
    have hnew : Table.has done field.1 = false := by
      rw [Table.has, List.any_eq_false]
      intro f hf
      rw [List.map_append, List.map_cons, List.nodup_append] at h
      have hne := h.2.2 f.1 (List.mem_map_of_mem hf) field.1 List.mem_cons_self
      simpa using hne
    have hput : Table.put done field.1 field.2 = done ++ [field] := by
      rw [Table.put, hnew]
      rfl
    rw [List.foldl_cons, hput, ih _ (by rwa [List.append_assoc, List.singleton_append]),
      List.append_assoc, List.singleton_append]

/-- Fields with distinct names are a table as they are. -/
theorem ofFields_of_nodup {fields : List (String × Value)} (h : (fields.map Prod.fst).Nodup) :
    Table.ofFields fields = fields :=
  ofFields_append [] h

/-- Fields in the order of their names. -/
def byName {α : Type} (fields : List (String × α)) : List (String × α) :=
  fields.mergeSort fun a b => a.1 ≤ b.1

theorem byName_perm {α : Type} (fields : List (String × α)) : (byName fields).Perm fields :=
  List.mergeSort_perm fields _

theorem byName_map {α β : Type} (f : α → β) (fields : List (String × α)) :
    byName (fields.map fun p => (p.1, f p.2)) = (byName fields).map fun p => (p.1, f p.2) := by
  rw [byName, byName, List.map_mergeSort]
  exact fun _ _ _ _ => rfl

mutual

/-- A value with the fields of its tables in the order of their names. -/
def sorted : Value → Value
  | .list items => .list (sortedItems items)
  | .table fields => .table (byName (sortedFields fields))
  | v => v

/-- The items of a list, each sorted. -/
def sortedItems : List Value → List Value
  | [] => []
  | v :: rest => sorted v :: sortedItems rest

/-- The fields of a table, each sorted. -/
def sortedFields : List (String × Value) → List (String × Value)
  | [] => []
  | (name, v) :: rest => (name, sorted v) :: sortedFields rest

end

theorem sorted_list (items : List Value) : sorted (.list items) = .list (items.map sorted) := by
  have hitems : sortedItems items = items.map sorted := by
    induction items with
    | nil => rw [sortedItems, List.map_nil]
    | cons v items ih => rw [sortedItems, ih, List.map_cons]
  rw [sorted, hitems]

theorem sorted_table (fields : List (String × Value)) :
    sorted (.table fields) = .table ((byName fields).map fun f => (f.1, sorted f.2)) := by
  have hfields : sortedFields fields = fields.map fun f => (f.1, sorted f.2) := by
    induction fields with
    | nil => rw [sortedFields, List.map_nil]
    | cons f fields ih => rw [sortedFields, ih, List.map_cons]
  rw [sorted, hfields, byName_map]

theorem prettyAt_list (level : Nat) (items : List Value) :
    prettyAt level (.list items) = block level "[" "]" (items.map (prettyAt (level + 1))) := by
  have hitems : prettyItems (level + 1) items = items.map (prettyAt (level + 1)) := by
    induction items with
    | nil => rw [prettyItems, List.map_nil]
    | cons v items ih => rw [prettyItems, ih, List.map_cons]
  rw [prettyAt, hitems]

theorem prettyAt_table (level : Nat) (fields : List (String × Value)) :
    prettyAt level (.table fields) = block level "\x7b" "\x7d" ((byName fields).map fun f =>
      stringText (LooseText.ofString f.1) ++ ": " ++ prettyAt (level + 1) f.2) := by
  have hfields : prettyFields (level + 1) fields =
      fields.map fun f => (f.1, prettyAt (level + 1) f.2) := by
    induction fields with
    | nil => rw [prettyFields, List.map_nil]
    | cons f fields ih => rw [prettyFields, ih, List.map_cons]
  have hsort : sortFields (prettyFields (level + 1) fields) =
      (byName fields).map fun f => (f.1, prettyAt (level + 1) f.2) := by
    rw [hfields]
    exact byName_map (prettyAt (level + 1)) fields
  rw [prettyAt, hsort, List.map_map]
  rfl

/-- A value that JSON can spell: its integers are short, its texts are proper, its nesting is no deeper
than the depth, and no table has a name twice. -/
inductive Plain (limit : Nat) : (depth : Nat) → Value → Prop where
  | null {depth : Nat} : Plain limit depth .null
  | bool {depth : Nat} (b : Bool) : Plain limit depth (.bool b)
  | int {depth : Nat} {i : Int} (h : (Nat.toDigits 10 i.natAbs).length ≤ limit) :
      Plain limit depth (.int i)
  | text {depth : Nat} (s : String) : Plain limit depth (.text s)
  | list {depth : Nat} {items : List Value} (h : ∀ v ∈ items, Plain limit depth v) :
      Plain limit (depth + 1) (.list items)
  | table {depth : Nat} {fields : List (String × Value)} (hnames : (fields.map Prod.fst).Nodup)
      (h : ∀ f ∈ fields, Plain limit depth f.2) : Plain limit (depth + 1) (.table fields)

theorem spells_null : Spells limit depth (atomText .null).toList .null := by
  have hspells : Spells limit depth ['n', 'u', 'l', 'l'] .null :=
    Spells.of_succ rfl (by decide) fun _ _ _ _ => rfl
  exact hspells

theorem spells_bool (b : Bool) : Spells limit depth (atomText (.bool b)).toList (.bool b) := by
  cases b with
  | true =>
    have hspells : Spells limit depth ['t', 'r', 'u', 'e'] (.bool true) :=
      Spells.of_succ rfl (by decide) fun _ _ _ _ => rfl
    exact hspells
  | false =>
    have hspells : Spells limit depth ['f', 'a', 'l', 's', 'e'] (.bool false) :=
      Spells.of_succ rfl (by decide) fun _ _ _ _ => rfl
    exact hspells

theorem spells_int {i : Int} (h : (Nat.toDigits 10 i.natAbs).length ≤ limit) :
    Spells limit depth (atomText (.int i)).toList (.int i) := by
  obtain ⟨c, more, htext, hc⟩ := toString_cons i
  have hne : ∀ d, d ≠ '-' → Text.isAsciiDigit d = false → c ≠ d := by
    rintro d hminus hd rfl
    rcases hc with rfl | hdigit
    · exact hminus rfl
    · exact absurd (hd.symm.trans hdigit) (by simp)
  have hblank : isBlank c = false := by
    simp only [isBlank, Bool.or_eq_false_iff, beq_eq_false_iff_ne]
    exact ⟨⟨⟨hne ' ' (by decide) rfl, hne '\t' (by decide) rfl⟩, hne '\n' (by decide) rfl⟩,
      hne '\r' (by decide) rfl⟩
  have hbrace : c.toNat ≠ 0x7B := fun hc =>
    hne (Char.ofNat 0x7B) (by decide) rfl (by rw [← hc, Char.ofNat_toNat])
  show Spells limit depth (toString i).toList (.int i)
  rw [htext]
  refine Spells.of_succ hblank (hne ']' (by decide) rfl) fun fuel rest _ hrest => ?_
  have hread := readAtom_toString h hrest
  rw [htext] at hread
  exact (readValue_atom (hne '"' (by decide) rfl) (hne '[' (by decide) rfl) hbrace _).trans hread

theorem spells_text (s : String) : Spells limit depth (atomText (.text s)).toList (.text s) := by
  obtain ⟨body, hbody, hread⟩ := readString_stringText s
  show Spells limit depth (stringText (LooseText.ofString s)).toList (.text s)
  rw [hbody]
  refine Spells.of_succ rfl (by decide) fun fuel rest _ _ => ?_
  rw [readValue, hread rest, ← ofLoose_ofString]
  rfl

theorem spells_empty {opening close : Char} (hblank : isBlank opening = false) (hclose : opening ≠ ']')
    (hread : ∀ fuel rest,
      readValue (some limit) (fuel + 1) depth (opening :: close :: rest) = .ok (v, rest)) :
    Spells limit depth [opening, close] v :=
  Spells.of_succ hblank hclose fun fuel rest _ _ => hread fuel rest

section Block

variable (write : Value → List Char) (back : Value → Value)

/-- A block between brackets spells the list of its items. -/
theorem spells_list (level : Nat) (v : Value) (items : List Value)
    (h : ∀ w ∈ v :: items, Spells limit depth (write w) (back w)) :
    Spells limit (depth + 1)
      ('[' :: '\n' :: (margin (level + 1) ++ (write v ++ following level ']' (items.map write))))
      (.list ((v :: items).map back)) := by
  have hv : Spells limit depth (write v) (back v) := h v List.mem_cons_self
  refine Spells.of_succ rfl (by decide) fun fuel rest hfuel _ => ?_
  have hitems := readItems_following fuel level v items h [] rest (by
    simp only [List.length_cons, List.length_append] at hfuel ⊢
    omega)
  have hskip := skipBlanks_line (level + 1) hv.solid (following level ']' (items.map write) ++ rest)
  rw [readValue]
  · simp only [beq_self_eq_true, if_true, List.cons_append, List.append_assoc, hskip]
    split
    next heq =>
      obtain ⟨c, more, hwrite, _⟩ := hv.solid
      rw [hwrite, List.cons_append] at heq
      exact absurd (hwrite.trans (congrArg (· :: more) (List.cons.inj heq).1)) (hv.unclosed more)
    next => exact hitems
  · simp

/-- A block between braces spells the table of its fields. -/
theorem spells_table (level : Nat) (field : String × Value) (fields : List (String × Value))
    (hnames : ((field :: fields).map Prod.fst).Nodup)
    (h : ∀ f ∈ field :: fields, Spells limit depth (write f.2) (back f.2)) :
    Spells limit (depth + 1)
      (Char.ofNat 0x7B :: '\n' :: (margin (level + 1) ++ (fieldText write field ++
        following level (Char.ofNat 0x7D) (fields.map (fieldText write)))))
      (.table ((field :: fields).map fun f => (f.1, back f.2))) := by
  obtain ⟨more, hmore⟩ := fieldText_cons write field
  refine Spells.of_succ rfl (by decide) fun fuel rest hfuel _ => ?_
  have hfields := readFields_following fuel level field fields h [] rest (by
    simp only [List.length_cons, List.length_append] at hfuel ⊢
    omega)
  have htable : Table.ofFields ((field :: fields).map fun f => (f.1, back f.2)) =
      (field :: fields).map fun f => (f.1, back f.2) := by
    refine ofFields_of_nodup ?_
    rwa [List.map_map]
  have hsolid : Solid (fieldText write field) := ⟨'"', more, hmore, rfl⟩
  have hskip := skipBlanks_line (level + 1) hsolid
    (following level (Char.ofNat 0x7D) (fields.map (fieldText write)) ++ rest)
  rw [List.reverse_nil, List.nil_append, htable] at hfields
  rw [hmore, List.cons_append] at hfields hskip
  rw [readValue]
  · simp only [List.cons_append, List.append_assoc, hmore, hskip]
    exact hfields
  · simp

end Block

theorem spells_prettyAt_list {items : List Value} (level : Nat)
    (h : ∀ v ∈ items, Spells limit depth (prettyAt (level + 1) v).toList (sorted v)) :
    Spells limit (depth + 1) (prettyAt level (.list items)).toList (sorted (.list items)) := by
  rw [prettyAt_list, sorted_list]
  cases items with
  | nil =>
    rw [List.map_nil, block_nil_toList level '[' ']' rfl rfl]
    exact spells_empty rfl (by decide) fun _ _ => rfl
  | cons v items =>
    rw [List.map_cons, block_toList level ']' rfl, List.map_map]
    exact spells_list (fun v => (prettyAt (level + 1) v).toList) sorted level v items h

theorem spells_prettyAt_table {fields : List (String × Value)} (level : Nat)
    (hnames : (fields.map Prod.fst).Nodup)
    (h : ∀ f ∈ fields, Spells limit depth (prettyAt (level + 1) f.2).toList (sorted f.2)) :
    Spells limit (depth + 1) (prettyAt level (.table fields)).toList (sorted (.table fields)) := by
  have hperm := byName_perm fields
  have hdistinct : ((byName fields).map Prod.fst).Nodup :=
    (hperm.map Prod.fst).nodup_iff.mpr hnames
  have hspells : ∀ f ∈ byName fields,
      Spells limit depth (prettyAt (level + 1) f.2).toList (sorted f.2) :=
    fun f hf => h f (hperm.mem_iff.mp hf)
  rw [prettyAt_table, sorted_table]
  generalize byName fields = fields at hdistinct hspells
  cases fields with
  | nil =>
    rw [List.map_nil,
      block_nil_toList level (Char.ofNat 0x7B) (Char.ofNat 0x7D) rfl rfl]
    exact spells_empty rfl (by decide) fun _ _ => rfl
  | cons field fields =>
    have hentry : ∀ f : String × Value,
        (stringText (LooseText.ofString f.1) ++ ": " ++ prettyAt (level + 1) f.2).toList =
          fieldText (fun v => (prettyAt (level + 1) v).toList) f := by
      intro f
      rw [String.toList_append, String.toList_append, List.append_assoc]
      rfl
    rw [List.map_cons, block_toList level (Char.ofNat 0x7D) rfl]
    simp only [List.map_map, Function.comp_def, hentry]
    exact spells_table (fun v => (prettyAt (level + 1) v).toList) sorted level field fields hdistinct
      hspells

/-- A written value is read back with its tables sorted. -/
theorem spells_prettyAt (h : Plain limit depth v) (level : Nat) :
    Spells limit depth (prettyAt level v).toList (sorted v) := by
  induction h generalizing level with
  | null => exact spells_null
  | bool b => exact spells_bool b
  | int h => exact spells_int h
  | text s => exact spells_text s
  | list _ ih => exact spells_prettyAt_list level fun w hw => ih w hw (level + 1)
  | table hnames _ ih => exact spells_prettyAt_table level hnames fun f hf => ih f hf (level + 1)

/-- The text of a value is read as the value with its tables sorted, if there is room for its blocks. -/
theorem parse_pretty (h : Plain limit depth v) :
    parse (some limit) (pretty v).toList depth = .ok (sorted v) := by
  have hspells : Spells limit depth (pretty v).toList (sorted v) := spells_prettyAt h 0
  have hread := hspells.read (2 * (pretty v).toList.length + 2) [] (by omega)
    fun _ hc => absurd hc (by simp)
  have hskip : skipBlanks (pretty v).toList = (pretty v).toList := by
    have hsolid := hspells.solid.skipBlanks []
    rwa [List.append_nil] at hsolid
  rw [List.append_nil] at hread
  rw [parse, hskip, hread]
  rfl

theorem exists_block (level : Nat) (opening closing : String) (entries : List String) :
    ∃ inner, (block level opening closing entries).toList =
      opening.toList ++ (inner ++ closing.toList) := by
  rw [block]
  split
  · exact ⟨[], String.toList_append⟩
  · simp only [String.toList_append, List.append_assoc]
    simp only [← List.append_assoc _ _ closing.toList]
    exact ⟨_, rfl⟩

/-- The text of a table starts and ends with its braces. -/
theorem exists_pretty_table (fields : List (String × Value)) :
    ∃ inner, (pretty (.table fields)).toList = Char.ofNat 0x7B :: (inner ++ [Char.ofNat 0x7D]) := by
  rw [pretty, prettyAt_table]
  exact exists_block 0 "\x7b" "\x7d" _

/-! ### Fields of sorted tables -/

/-- A sorted table has the fields that it had. -/
theorem sorted_table_get? {t : Table} (hnames : (t.map Prod.fst).Nodup) :
    ∃ t' : Table, sorted (.table t) = .table t' ∧ ∀ name, t'.get? name = (t.get? name).map sorted := by
  refine ⟨_, sorted_table t, fun name => ?_⟩
  rw [Table.get?_map, Table.get?_of_perm (byName_perm t).symm hnames name]

end AnalyzerBridge.Json
