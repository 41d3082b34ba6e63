import LinkedTables.Filter.Binding
import LinkedTables.Join.KeyIndex

/-!
# Joined rows

A frame holds the rows of a home table joined to those of other tables.  It does not copy cells: a
row of the frame says for each joined table which of its rows stands there, or that none does.

A join replaces each row of the frame by as many rows as the table to be joined has matching ones,
or, if it has none, by one in which the table is missing.  A limit on the number of rows is checked
after each row of the old frame.
-/

namespace LinkedTables

/-- A joined row: for each table of the frame the position of one of its rows, or none. -/
abbrev FrameRow := List (Option Nat)

/-- Joined rows, and the tables that their entries belong to. -/
structure Frame where
  tables : List TableId
  rows : Array FrameRow
deriving DecidableEq, Repr

namespace Frame

/-- How many joined rows there are. -/
def size (f : Frame) : Nat := f.rows.size

/-- Whether there is no joined row. -/
def isEmpty (f : Frame) : Bool := f.rows.isEmpty

/-- The place of a table in the rows. -/
def slot? (f : Frame) (id : TableId) : Option Nat := f.tables.idxOf? id

/-- Which row of a table stands in a joined row. -/
def position? (f : Frame) (row : Nat) (id : TableId) : Option Nat := do
  (← f.rows[row]?)[← f.slot? id]?.join

/-- The rows of a home table, joined to nothing yet. -/
def ofHome (home : TableId) (rows : Nat) : Frame :=
  ⟨[home], (Array.range rows).map fun i => [some i]⟩

/-! ## One join -/

/-- The rows that a row becomes when the given rows of another table match it. -/
def extendRow (row : FrameRow) : (matching : List Nat) → List FrameRow
  | [] => [row ++ [none]]
  | i :: rest => (i :: rest).map fun j => row ++ [some j]

/-- Extend all rows, as long as there are not more than the limit.  `done` holds the rows made so
far, the last one first, and `count` is their number; if it grows too large it is the error. -/
def extendRows (limit : Option Nat) (matching : FrameRow → List Nat) (done : List FrameRow)
    (count : Nat) : List FrameRow → Except (Nat × Nat) (List FrameRow)
  | [] => .ok done.reverse
  | row :: rest =>
    let made := extendRow row (matching row)
    let total := count + made.length
    match limit.filter (· < total) with
    | some limit => .error (total, limit)
    | none => extendRows limit matching (made.reverse ++ done) total rest

/-- The cell of a column in a row of a table; the column may be unknown. -/
def cellsOf (t : Table) (name : String) : Array Cell := ((t.column? name).map Column.cells).getD #[]

/-- The rows of a table by their key in a column.  A column may be longer than the table has rows;
the cells behind the last row are left out. -/
def indexOf (t : Table) (name : String) : KeyIndex :=
  KeyIndex.ofCells ((cellsOf t name).toList.take t.rowCount)

/-- The rows of an index that match a joined row, given the place and the key column of the table
it is joined from. -/
def matchesOf (index : KeyIndex) (slot : Nat) (cells : Array Cell) (row : FrameRow) : List Nat :=
  match row[slot]?.join.bind (cells[·]?) |>.bind Cell.joinKey? with
  | some key => index.positions key
  | none => []

/-- Join a table to a frame. -/
def join (db : Database) (limit : Option Nat) (f : Frame) (step : JoinStep) : Traced Frame := do
  let left ← answer (db.table step.source)
  let right ← answer (db.table step.target)
  match f.slot? step.source with
  | none => throw (.unknownTable step.source)
  | some slot =>
    let index := indexOf right step.onRight
    match extendRows limit (matchesOf index slot (cellsOf left step.onLeft)) [] 0 f.rows.toList with
    | .error (rows, limit) =>
      emit (.frameOverLimit step.relation limit)
      throw (.frameTooLarge rows limit)
    | .ok rows =>
      emit (.stepJoined step rows.length)
      pure ⟨f.tables ++ [step.target], rows.toArray⟩

end Frame

/-- The joined rows of a plan. -/
def Database.buildFrame (db : Database) (limit : Option Nat) (p : JoinPlan) : Traced Frame := do
  let home ← answer (db.table p.home)
  p.steps.foldlM (Frame.join db limit) (.ofHome p.home home.rowCount)

end LinkedTables
