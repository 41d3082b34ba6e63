import LinkedTables.Filter.Expr
import LinkedTables.Filter.Reference
import LinkedTables.Schema

/-!
# Bound filters

A filter whose columns are bound to the tables that own them, together with the paths that its
qualified references spell out.  A path that is written out fixes how its table is joined; every
other table is joined over a shortest path.
-/

namespace LinkedTables

/-- A path of relations that a reference spells out, and the table it ends at. -/
structure ExplicitPath where
  table : TableId
  path : List Relation
deriving DecidableEq, Inhabited, Repr

/-- A filter over bound columns, and the paths spelled out in it, each once and in order. -/
structure BoundFilter where
  expr : Expr BoundColumn
  paths : List ExplicitPath
deriving Repr

/-- The entries of a list, each where it stands first. -/
def distinct {α : Type} [DecidableEq α] (xs : List α) : List α :=
  (xs.foldl (fun found x => if x ∈ found then found else x :: found) []).reverse

/-- The tables that own a column of the filter, in the order of the first reference to them. -/
def BoundFilter.owners (f : BoundFilter) : List TableId :=
  distinct (f.expr.columns.map BoundColumn.table)

/-- The text of a filter over bound columns. -/
def BoundColumn.exprText (e : Expr BoundColumn) : String := e.text BoundColumn.text

end LinkedTables
