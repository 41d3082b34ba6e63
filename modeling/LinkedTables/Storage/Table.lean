import LinkedTables.Storage.Codec
import LinkedTables.Table

/-!
# Stored tables

Tables as bytes: the column names, the cells column by column, and the row identities.
-/

namespace LinkedTables

/-- A cell as bytes, behind the number of its kind. -/
def Cell.bytes : Cell → Bytes
  | .integer n => Codec.numberBytes 4 0 ++ Codec.numberBytes 8 n.toUInt64.toNat
  | .float x => Codec.numberBytes 4 1 ++ Codec.numberBytes 8 x.bits.toNat
  | .text s => Codec.numberBytes 4 2 ++ Codec.text.encode s
  | .boolean b => Codec.numberBytes 4 3 ++ [if b then 1 else 0]
  | .null => Codec.numberBytes 4 4

/-- A list as bytes, behind its length. -/
def Table.listBytes {α : Type} (item : α → Bytes) (xs : List α) : Bytes :=
  Codec.word.encode xs.length ++ xs.flatMap item

/-- A table as bytes. -/
def Table.bytes (t : Table) : Bytes :=
  listBytes Codec.text.encode t.columnNames
    ++ listBytes (fun c => listBytes Cell.bytes c.cells.toList) t.columns
    ++ listBytes Codec.word.encode t.rowIds.toList

end LinkedTables
