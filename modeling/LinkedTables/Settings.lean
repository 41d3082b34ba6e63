/-!
# Settings of a filter

How long a filter may be, how large the joined rows may grow, and what an unqualified column name
refers to.
-/

namespace LinkedTables

/-- What an unqualified name that the home table has as a column refers to. -/
inductive UnqualifiedRule where
  /-- the home table's column, whatever other tables have -/
  | preferHome
  /-- the one table in reach that has the column, the home table being one of them -/
  | strict
deriving DecidableEq, Inhabited, Repr

/-- The settings under which filters run. -/
structure Settings where
  /-- the longest filter that is accepted, in bytes -/
  maxExpressionLength : Nat
  /-- the most joined rows that may be built, if there is a limit -/
  maxFrameRows : Option Nat
  unqualified : UnqualifiedRule
deriving DecidableEq, Inhabited, Repr

namespace Settings

/-- Filters of at most a mebibyte, no limit on joined rows, and the home table first. -/
def standard : Settings := ⟨1048576, none, .preferHome⟩

/-- Set the longest filter that is accepted. -/
def withMaxExpressionLength (s : Settings) (length : Nat) : Settings :=
  { s with maxExpressionLength := length }

/-- Limit the joined rows. -/
def withMaxFrameRows (s : Settings) (rows : Nat) : Settings := { s with maxFrameRows := some rows }

/-- Set what unqualified names refer to. -/
def withUnqualified (s : Settings) (rule : UnqualifiedRule) : Settings :=
  { s with unqualified := rule }

end Settings

end LinkedTables
