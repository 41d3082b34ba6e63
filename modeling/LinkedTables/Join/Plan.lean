import LinkedTables.Schema

/-!
# Join plans

A plan says in which order related tables are joined to the rows of a home table.  Each step is a
left join along one declared relation: rows that find no partner stay.
-/

namespace LinkedTables

/-- One left join: the table `target` is joined to rows that hold `source` already. -/
structure JoinStep where
  source : TableId
  relation : String
  target : TableId
  onLeft : String
  onRight : String
  /-- how many relations lie between the home table and `target` -/
  depth : Nat
deriving DecidableEq, Inhabited, Repr

/-- The joins of a filter, and the names of all registered tables. -/
structure JoinPlan where
  home : TableId
  steps : List JoinStep
  names : Array String
deriving DecidableEq, Repr

/-- How a step is shown on its own. -/
def JoinStep.text (s : JoinStep) : String :=
  "LeftJoin(" ++ s.target.text ++ " via " ++ s.relation ++ " ON " ++ s.onLeft ++ " = "
    ++ s.onRight ++ ")"

namespace JoinPlan

/-- Whether nothing is joined. -/
def isEmpty (p : JoinPlan) : Bool := p.steps.isEmpty

/-- The tables of the joined rows: the home table, and then the others as they are joined. -/
def tables (p : JoinPlan) : List TableId := p.home :: p.steps.map JoinStep.target

/-- The name of a table, or its identifier if it has none. -/
def tableName (p : JoinPlan) (id : TableId) : String := p.names[id]?.getD id.text

/-- How a step is shown as a part of the plan. -/
def stepText (p : JoinPlan) (s : JoinStep) : String :=
  " -> LeftJoin(" ++ p.tableName s.source ++ "." ++ s.relation ++ " -> " ++ p.tableName s.target
    ++ " ON " ++ s.onLeft ++ " = " ++ s.onRight ++ ")"

/-- How a plan is shown. -/
def text (p : JoinPlan) : String :=
  p.steps.foldl (fun out s => out ++ p.stepText s) ("Scan(" ++ p.tableName p.home ++ ")")

end JoinPlan

end LinkedTables
