import LinkedTables.Failure

/-!
# Tables

A table holds its cells by column.  Each row has an identity, its place in the table it was first
built in, which stays with it through every selection.  The identities also say how many rows
there are, so a table without columns can still have rows.

The three ways to derive a table, `select`, `project` and the two constructors, check what they
are given and otherwise never fail.
-/

namespace LinkedTables

/-- A named column. -/
structure Column where
  name : String
  cells : Array Cell
deriving DecidableEq, Inhabited, Repr

/-- Named columns, and the identities of the rows.  A table that is built or derived has in every
column one cell for each row; the type alone does not say so. -/
structure Table where
  columns : List Column
  rowIds : Array Nat
deriving DecidableEq, Inhabited, Repr

namespace Table

/-! ## Reading -/

/-- The names of the columns, in order. -/
def columnNames (t : Table) : List String := t.columns.map Column.name

/-- How many rows there are. -/
def rowCount (t : Table) : Nat := t.rowIds.size

/-- The column of a name. -/
def column? (t : Table) (name : String) : Option Column := t.columns.find? (·.name == name)

/-- Whether there is a column of a name. -/
def hasColumn (t : Table) (name : String) : Bool := (t.column? name).isSome

/-- The cells of one row, in the order of the columns. -/
def row? (t : Table) (i : Nat) : Option (List Cell) :=
  if i < t.rowCount then t.columns.mapM (·.cells[i]?) else none

/-- The cell of a row under a column name. -/
def cell? (t : Table) (i : Nat) (name : String) : Option Cell := do (← t.column? name).cells[i]?

/-! ## Building -/

/-- The first name that stands in the list a second time, or among the names seen before. -/
def duplicateAfter? (seen : List String) : List String → Option String
  | [] => none
  | name :: rest => if name ∈ seen then some name else duplicateAfter? (name :: seen) rest

/-- Refuse a list of names that repeats one. -/
def checkNames (names : List String) : Except Failure Unit :=
  match duplicateAfter? [] names with
  | some name => .error (.invalidTable (.duplicateColumn name))
  | none => .ok ()

/-- The first row that has not one cell per column, with its width and its place, counted on from
`i`. -/
def firstOfOtherWidth? (width i : Nat) : List (List Cell) → Option (Nat × Nat)
  | [] => none
  | row :: rest =>
    if row.length = width then firstOfOtherWidth? width (i + 1) rest else some (i, row.length)

/-- A table of fresh rows, as many as the first column has cells. -/
def fresh (columns : List Column) : Table :=
  ⟨columns, Array.range ((columns.head?.map (·.cells.size)).getD 0)⟩

/-- Build a table from its rows. -/
def ofRows (names : List String) (rows : List (List Cell)) : Except Failure Table := do
  checkNames names
  match firstOfOtherWidth? names.length 0 rows with
  | some (i, found) => .error (.invalidTable (.rowWidth i found names.length))
  | none =>
    pure (fresh (names.mapIdx fun j name => ⟨name, (rows.map fun row => row.getD j .null).toArray⟩))

/-- Build a table from its columns. -/
def ofColumns (columns : List Column) : Except Failure Table := do
  checkNames (columns.map Column.name)
  let table := fresh columns
  match columns.find? (·.cells.size != table.rowCount) with
  | some c => .error (.invalidTable (.columnLength c.name c.cells.size table.rowCount))
  | none => pure table

/-! ## Deriving -/

/-- The entries of a list whose mark is true. -/
def marked {α : Type} (mask : List Bool) (xs : List α) : List α :=
  (mask.zip xs).filterMap fun (mark, x) => if mark then some x else none

/-- Keep the rows whose mark is true, in order and with their identities. -/
def select (t : Table) (mask : List Bool) : Except Failure Table :=
  if mask.length = t.rowCount then
    .ok ⟨t.columns.map fun c => ⟨c.name, (marked mask c.cells.toList).toArray⟩,
      (marked mask t.rowIds.toList).toArray⟩
  else .error (.invalidTable (.maskLength mask.length t.rowCount))

/-- Keep the named columns, in the order of the names. -/
def project (t : Table) (names : List String) : Except Failure Table := do
  let columns ← names.mapM fun name =>
    match t.column? name with
    | some c => .ok c
    | none => .error (.invalidTable (.noSuchColumn name))
  checkNames names
  pure ⟨columns, t.rowIds⟩

/-! ## Equality of contents -/

/-- Whether two lists of cells hold the same contents. -/
def sameCells (xs ys : List Cell) : Bool :=
  xs.length == ys.length && (xs.zip ys).all fun (x, y) => x.same y

/-- Whether two tables have the same columns, cells and row identities. -/
def same (s t : Table) : Bool :=
  s.columnNames == t.columnNames
    && (s.columns.zip t.columns).all (fun (c, d) => sameCells c.cells.toList d.cells.toList)
    && s.rowIds == t.rowIds

end Table

end LinkedTables
