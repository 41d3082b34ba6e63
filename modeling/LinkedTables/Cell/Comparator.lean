import LinkedTables.Cell

/-!
# Comparison operators

The six operators of the filter language, and what it means that a cell stands in one of them to
a literal.  Null is equal to null and to nothing else, and has no order.
-/

namespace LinkedTables

/-- A comparison operator. -/
inductive Comparator where
  | eq | ne | lt | le | gt | ge
deriving DecidableEq, Inhabited, Repr

namespace Comparator

/-- The operator with its two sides exchanged: `a < b` says the same as `b > a`. -/
def converse : Comparator → Comparator
  | eq => eq
  | ne => ne
  | lt => gt
  | le => ge
  | gt => lt
  | ge => le

/-- How the operator is written. -/
def text : Comparator → String
  | eq => "=="
  | ne => "!="
  | lt => "<"
  | le => "<="
  | gt => ">"
  | ge => ">="

/-- Whether the operator is met by two cells that are not null. -/
def holdsForValues (op : Comparator) (a b : Cell) : Bool :=
  match op with
  | eq => a.equal? b == some true
  | ne => a.equal? b != some true
  | lt => (a.order? b).any Ordering.isLT
  | le => (a.order? b).any Ordering.isLE
  | gt => (a.order? b).any Ordering.isGT
  | ge => (a.order? b).any Ordering.isGE

/-- Whether a cell stands in the operator to a literal. -/
def holds (op : Comparator) (cell literal : Cell) : Bool :=
  match cell.isNull, literal.isNull with
  | true, true => op == eq
  | true, false => false
  | false, true => op == ne
  | false, false => op.holdsForValues cell literal

end Comparator

end LinkedTables
