import LinkedTables.Join.Frame

/-!
# Evaluating filters

A filter is evaluated on all joined rows of its plan at once: every node of it makes a mask, which
says of each joined row whether the node is true there.  A row of the home table is kept if one of
the joined rows it stands in makes the filter true.  A column of a table that is missing in a
joined row reads as null.
-/

namespace LinkedTables

/-- Where the cells of a column are found: the place of its table in a joined row, and the column
itself. -/
structure CellSource where
  slot : Nat
  cells : Array Cell

/-- The cell that a joined row has in a column. -/
def CellSource.read (row : FrameRow) (source : CellSource) : Cell :=
  (row[source.slot]?.join.bind (source.cells[·]?)).getD .null

namespace Expr

mutual

/-- Which joined rows make a filter true. -/
def mask (rows : List FrameRow) : Expr CellSource → List Bool
  | compare source op literal => rows.map fun row => op.holds (source.read row) literal
  | and terms => combineMasks rows (· && ·) (.replicate rows.length true) terms
  | or terms => combineMasks rows (· || ·) (.replicate rows.length false) terms
  | not term => (mask rows term).map (!·)

/-- Combine a mask with those of all terms, one after the other. -/
def combineMasks (rows : List FrameRow) (connect : Bool → Bool → Bool) (carried : List Bool) :
    List (Expr CellSource) → List Bool
  | [] => carried
  | term :: rest => combineMasks rows connect (carried.zipWith connect (mask rows term)) rest

end

end Expr

namespace Database

/-- Find the cells of a bound column in the rows of a frame. -/
def locate (db : Database) (p : JoinPlan) (f : Frame) (c : BoundColumn) :
    Except Failure CellSource := do
  let t ← db.table c.table
  match f.slot? c.table with
  | some slot => pure ⟨slot, Frame.cellsOf t c.column⟩
  | none => .error (.unreachableTable (p.tableName c.table))

/-- Mark the row of the home table that stands in a joined row, if the mask is true there. -/
def markHome (marks : Array Bool) (entry : FrameRow × Bool) : Array Bool :=
  match entry.2, entry.1.head?.join with
  | true, some i => marks.setIfInBounds i true
  | _, _ => marks

/-- Which rows of a home table of `size` rows stand in a joined row that makes the filter true. -/
def marks (size : Nat) (rows : List FrameRow) (e : Expr CellSource) : List Bool :=
  ((rows.zip (e.mask rows)).foldl markHome (Array.replicate size false)).toList

/-- The rows of the home table that the filter keeps. -/
def evaluate (db : Database) (limit : Option Nat) (p : JoinPlan) (e : Expr BoundColumn) :
    Traced Table := do
  let home ← answer (db.table p.home)
  let frame ← db.buildFrame limit p
  let located ← answer (e.mapColumnsM (db.locate p frame))
  let kept := marks home.rowCount frame.rows.toList located
  emit (.filterEvaluated frame.size (kept.count true))
  answer (home.select kept)

end Database

end LinkedTables
