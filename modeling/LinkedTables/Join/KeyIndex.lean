import Std.Data.HashMap
import LinkedTables.Cell

/-!
# Rows by join key

To join a table, the rows of its key column are listed by the key they are matched by.  The main
statement is that a look-up gives the positions of exactly the cells with that key, in order.
-/

namespace LinkedTables

/-- The positions of cells by their join key. -/
abbrev KeyIndex := Std.HashMap Cell.Key (List Nat)

namespace KeyIndex

/-- Add a cell and its position in front of those added before. -/
def add (entry : Cell × Nat) (index : KeyIndex) : KeyIndex :=
  match entry.1.joinKey? with
  | none => index
  | some key => index.insert key (entry.2 :: index.getD key [])

/-- The index of the cells of a column. -/
def ofCells (cells : List Cell) : KeyIndex := cells.zipIdx.foldr add ∅

/-- The positions of the cells with a key. -/
def positions (index : KeyIndex) (key : Cell.Key) : List Nat := index.getD key []

theorem positions_add (entry : Cell × Nat) (index : KeyIndex) (key : Cell.Key) :
    (index.add entry).positions key =
      if entry.1.joinKey? = some key then entry.2 :: index.positions key
      else index.positions key := by
  unfold add positions
  cases h : entry.1.joinKey? with
  | none => simp
  | some k =>
    simp only [Std.HashMap.getD_insert, beq_iff_eq, Option.some.injEq]
    split
    · rename_i eq
      rw [eq]
    · rfl

/-- A look-up gives the positions of the cells with the key, in order. -/
theorem positions_ofCells (cells : List Cell) (key : Cell.Key) :
    (ofCells cells).positions key =
      (cells.zipIdx.filter fun entry => entry.1.joinKey? == some key).map Prod.snd := by
  unfold ofCells
  induction cells.zipIdx with
  | nil => simp [positions]
  | cons entry rest ih =>
    rw [List.foldr_cons, positions_add, ih, List.filter_cons]
    by_cases h : entry.1.joinKey? = some key <;> simp [h]

end KeyIndex

end LinkedTables
