import LinkedTables.Filter.Bound
import LinkedTables.Join.Plan
import LinkedTables.Schema.Reach

/-!
# Planning joins

The plan of a bound filter joins every table that owns one of its columns, and the tables on
the way.  Paths that the filter spells out come first and are taken as written; it is an error if
they contradict each other, since each table is joined once.  Every other owner is joined over a
shortest path, of which the tables joined already are left out.  In the end the steps are put in
the order of their distance from the home table, and keep their order otherwise.
-/

namespace LinkedTables

namespace JoinPlan

/-! ## Steps gathered so far -/

/-- The step that joins a table. -/
def stepTo? (steps : List JoinStep) (id : TableId) : Option JoinStep :=
  steps.find? (·.target == id)

/-- Whether a table is the home table or joined by one of the steps. -/
def joins (home : TableId) (steps : List JoinStep) (id : TableId) : Bool :=
  id == home || (stepTo? steps id).isSome

/-- The distance of a table from the home table; one that is not joined counts as close. -/
def depthOf (home : TableId) (steps : List JoinStep) (id : TableId) : Nat :=
  if id = home then 0 else ((stepTo? steps id).map JoinStep.depth).getD 0

/-- Join the target of a relation. -/
def follow (home : TableId) (steps : List JoinStep) (r : Relation) : List JoinStep :=
  steps ++ [⟨r.source, r.name, r.target, r.onLeft, r.onRight, depthOf home steps r.source + 1⟩]

/-! ## Adding paths -/

/-- Add one relation of a path that is spelled out.  A table joined over another relation already
cannot be joined once more. -/
def addExplicit (s : Schema) (home : TableId) (steps : List JoinStep) (r : Relation) :
    Except Failure (List JoinStep) :=
  if r.target = home then .error (.invalidInput (.leadsHome r.name))
  else
    match stepTo? steps r.target with
    | none => .ok (follow home steps r)
    | some step =>
      if step.source = r.source ∧ step.relation = r.name then .ok steps
      else .error (.invalidInput (.twoWays (s.nameOf r.target) (s.nameOf step.source, step.relation)
        (s.nameOf r.source, r.name)))

/-- Add a shortest path, without the tables that are joined already. -/
def extend (home : TableId) (steps : List JoinStep) (path : List Relation) : List JoinStep :=
  path.foldl (fun steps r => if joins home steps r.target then steps else follow home steps r) steps

/-- Add what is needed to join a table that owns a column. -/
def reach (s : Schema) (home : TableId) (steps : List JoinStep) (owner : TableId) :
    Except Failure (List JoinStep) :=
  if joins home steps owner then .ok steps
  else
    match (s.reachable home).find? (·.table == owner) with
    | some x => .ok (extend home steps x.path)
    | none => .error (.unreachableTable (s.nameOf owner))

/-! ## Order of the steps -/

/-- Put a step behind all steps that are no deeper. -/
def insertByDepth (sorted : List JoinStep) (step : JoinStep) : List JoinStep :=
  match sorted with
  | [] => [step]
  | s :: rest => if s.depth ≤ step.depth then s :: insertByDepth rest step else step :: s :: rest

/-- Steps in the order of their depth; steps of one depth stay in order. -/
def byDepth (steps : List JoinStep) : List JoinStep := steps.foldl insertByDepth []

end JoinPlan

/-- The joins that a bound filter on a home table needs. -/
def Schema.plan (s : Schema) (home : TableId) (f : BoundFilter) : Except Failure JoinPlan := do
  let steps ← (f.paths.flatMap ExplicitPath.path).foldlM (JoinPlan.addExplicit s home) []
  let steps ← f.owners.foldlM (JoinPlan.reach s home) steps
  pure ⟨home, JoinPlan.byDepth steps, s.entries.map Schema.Entry.name⟩

end LinkedTables
