import LinkedTables.Number.Decimal

/-!
# Cells

A cell of a table, and at the same time a literal of a filter: an integer of 64 bits, a
floating-point number, a text, a truth value, or null.

`Cell.order?` and `Cell.equal?` are the two relations that comparisons are made of, and
`Cell.joinKey?` is what decides whether two rows belong together.  Numbers of both kinds are
compared as floating-point numbers; as join keys they are compared exactly, except that the one
number just past the largest integer shares the key of that integer.
-/

namespace LinkedTables

/-- The content of one cell, and the value of a literal. -/
inductive Cell where
  | integer (n : Int64)
  | float (x : Binary64)
  | text (s : String)
  | boolean (b : Bool)
  | null
deriving DecidableEq, Inhabited, Repr

namespace Cell

/-- Whether the cell is null. -/
def isNull : Cell → Bool
  | null => true
  | _ => false

/-! ## Order and equality -/

/-- A number as a floating-point number; an integer goes to the nearest one. -/
def toBinary64? : Cell → Option Binary64
  | integer n => some (.ofInt n.toInt)
  | float x => some x
  | _ => none

/-- The order of two cells.  Integers and texts have their own; any other two numbers are compared
as floating-point numbers, and nothing else is ordered. -/
def order? : Cell → Cell → Option Ordering
  | integer m, integer n => some (compare m.toInt n.toInt)
  | text s, text t => some (compare s t)
  | a, b => do (← a.toBinary64?).compare? (← b.toBinary64?)

/-- Whether two cells are equal; there is no answer if one is null.  Truth values are equal as
such, other cells if their order says so. -/
def equal? : Cell → Cell → Option Bool
  | null, _ => none
  | _, null => none
  | boolean a, boolean b => some (a == b)
  | a, b => some (a.order? b == some .eq)

/-- Whether two cells hold the same content, kind included.  The two zeros are the same and NaN
is not even the same as itself. -/
def same : Cell → Cell → Bool
  | float x, float y => x.compare? y == some .eq
  | a, b => a == b

/-! ## Join keys -/

/-- What the rows of two tables are matched by. -/
inductive Key where
  | integer (n : Int)
  | float (bits : UInt64)
  | text (s : String)
  | boolean (b : Bool)
deriving DecidableEq, Hashable, Repr

/-- The key of a floating-point number: that of the integer it is equal to, if there is one of 64
bits, and its word otherwise.  The number `2 ^ 63` is taken for the largest integer. -/
def floatKey (x : Binary64) : Key :=
  let n := x.truncate
  let largest := Int64.maxValue.toInt
  if x.isIntegral && Int64.minValue.toInt ≤ n && n ≤ largest + 1 then .integer (min n largest)
  else .float x.bits

/-- The key a cell is matched by; null matches nothing. -/
def joinKey? : Cell → Option Key
  | null => none
  | integer n => some (.integer n.toInt)
  | float x => some (floatKey x)
  | text s => some (.text s)
  | boolean b => some (.boolean b)

/-! ## Text -/

/-- The decimal text of an integer. -/
def intChars (n : Int) : List Char :=
  if n < 0 then '-' :: Decimal.digitsOf n.natAbs else Decimal.digitsOf n.natAbs

/-- The text of a truth value. -/
def boolChars (b : Bool) : List Char := (if b then "true" else "false").toList

/-- The text of a cell as a result shows it. -/
def chars : Cell → List Char
  | integer n => intChars n.toInt
  | float x => x.chars
  | text s => s.toList
  | boolean b => boolChars b
  | null => "NULL".toList

/-- The quote that a text is written in: the language has no escapes, so a text that holds the
single quote is put in double ones. -/
def quoteFor (s : List Char) : Char := if '\'' ∈ s then '"' else '\''

/-- The text of a cell as a literal of a filter. -/
def literalChars : Cell → List Char
  | integer n => intChars n.toInt
  | float x => x.literalChars
  | text s => quoteFor s.toList :: s.toList ++ [quoteFor s.toList]
  | boolean b => boolChars b
  | null => "None".toList

end Cell

end LinkedTables
