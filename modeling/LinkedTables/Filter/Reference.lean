import LinkedTables.Failure

/-!
# Column references

A column can be written in three forms: by its name alone, behind a path of relations, or behind
`self`, which stands for the table being filtered.  Once bound it is known by the table that
owns it.
-/

namespace LinkedTables

/-- A column as it is written. -/
inductive Reference.Form where
  /-- `amount` -/
  | plain (name : String)
  /-- `orders.amount`, `orders.product.price` -/
  | path (segments : List String) (name : String)
  /-- `self.age` -/
  | home (name : String)
deriving DecidableEq, Inhabited, Repr

/-- A column as it is written, and the number of characters in front of it. -/
structure Reference where
  form : Reference.Form
  position : Nat
deriving DecidableEq, Inhabited, Repr

namespace Reference

/-- The name of the column, without what qualifies it. -/
def name (r : Reference) : String :=
  match r.form with
  | .plain name => name
  | .path _ name => name
  | .home name => name

/-- How the reference is written. -/
def text (r : Reference) : String :=
  match r.form with
  | .plain name => name
  | .path segments name => ".".intercalate segments ++ "." ++ name
  | .home name => "self." ++ name

/-- The reference that a dotted path stands for.  A leading `self` names the table being filtered
and is dropped; a path of more than one segment after it is a path of relations like any other. -/
def ofPath (first : String) (rest : List String) (position : Nat) : Reference :=
  match rest with
  | [] => ⟨.plain first, position⟩
  | second :: more =>
    if first = "self" then
      match more with
      | [] => ⟨.home second, position⟩
      | _ :: _ => ⟨.path (second :: more).dropLast (more.getLastD second), position⟩
    else ⟨.path (first :: rest).dropLast (more.getLastD second), position⟩

end Reference

/-- A column and the table that owns it. -/
structure BoundColumn where
  table : TableId
  column : String
deriving DecidableEq, Inhabited, Repr

/-- How a bound column is shown. -/
def BoundColumn.text (c : BoundColumn) : String := c.table.text ++ "." ++ c.column

end LinkedTables
