/-
Tables under construction.

A TOML document builds one table by statements that address nested tables with
dotted keys.  `updateNest` changes the table at the end of a path and creates
what is missing on the way; an array of tables is entered at its last table.
`Marks` remembers which namespaces may no longer be declared or changed: an
opened one cannot be declared again, a sealed one cannot be changed, nor can
anything below it.
-/
import AnalyzerBridge.Value.Basic

namespace AnalyzerBridge.Toml

/-- A path of names from the root of a document. -/
abbrev Path := List String

/-- What may no longer be declared or changed.  Pending paths become opened at the next header. -/
structure Marks where
  opened : List Path := []
  closed : List Path := []
  pending : List Path := []

namespace Marks

/-- The table at the path has been declared. -/
def isOpened (m : Marks) (path : Path) : Bool :=
  m.opened.contains path

/-- The value at the path, or one above it, is immutable. -/
def isClosed (m : Marks) (path : Path) : Bool :=
  m.closed.any fun p => p.isPrefixOf path

/-- Declares the table at a path. -/
def openPath (m : Marks) (path : Path) : Marks :=
  { m with opened := path :: m.opened }

/-- Makes the value at a path immutable. -/
def closePath (m : Marks) (path : Path) : Marks :=
  { m with closed := path :: m.closed }

/-- Declares the table at a path from the next header on. -/
def defer (m : Marks) (path : Path) : Marks :=
  { m with pending := path :: m.pending }

/-- A header begins: what was deferred holds. -/
def settle (m : Marks) : Marks :=
  { m with opened := m.pending ++ m.opened, pending := [] }

/-- Forgets everything at and below a path. -/
def release (m : Marks) (path : Path) : Marks :=
  { m with
    opened := m.opened.filter fun p => !path.isPrefixOf p
    closed := m.closed.filter fun p => !path.isPrefixOf p }

end Marks

/-- Changes the table at the end of a path.  Where `enterLists` holds, a list stands for its last
item; a value that is no table ends the walk. -/
def updateNest (enterLists : Bool) : Path → (Table → Option Table) → Table → Option Table
  | [], f, t => f t
  | name :: path, f, t =>
    match t.get? name with
    | none => (updateNest enterLists path f []).map fun inner => t.put name (.table inner)
    | some (.table inner) =>
      (updateNest enterLists path f inner).map fun inner => t.put name (.table inner)
    | some (.list items) =>
      match enterLists, items.reverse with
      | true, .table inner :: before =>
        (updateNest enterLists path f inner).map fun inner =>
          t.put name (.list ((Value.table inner :: before).reverse))
      | _, _ => none
    | some _ => none

/-- Adds a field that the table does not have yet. -/
def insertNew (name : String) (v : Value) (t : Table) : Option Table :=
  if t.has name then none else some (t.put name v)

/-- Appends an empty table to the list of a name, which is created if missing. -/
def appendTable (name : String) (t : Table) : Option Table :=
  match t.get? name with
  | none => some (t.put name (.list [.table []]))
  | some (.list items) => some (t.put name (.list (items ++ [.table []])))
  | some _ => none

/-- A list or a table, whose namespace an assignment closes. -/
def isNest : Value → Bool
  | .list _ => true
  | .table _ => true
  | _ => false

end AnalyzerBridge.Toml
