import LinkedTables.Filter.Bound
import LinkedTables.Join.Plan

/-!
# The log

The events that the library tells of while it works.  An event carries its data as they are, and
is put into words only where it is shown.  A call that can fail, and that logs events whether or
not it fails, is a `Traced` computation.
-/

namespace LinkedTables

/-- Something worth telling of. -/
inductive Event where
  | tableRegistered (name : String) (id : TableId)
  | relationDeclared (relation : Relation)
  /-- an unqualified name was found on one table in reach -/
  | columnFound (column : String) (owner : TableId)
  | planBuilt (home : TableId) (steps : Nat)
  | filterPrepared (home : TableId) (expr : Expr BoundColumn) (joins : Nat)
  | stepJoined (step : JoinStep) (rows : Nat)
  | frameOverLimit (relation : String) (limit : Nat)
  | filterEvaluated (frameRows kept : Nat)
  | filterAnswered (table : TableId) (expr : String) (rows : Nat)
  | filterFailed (table : TableId) (expr : String) (failure : Failure)

/-- How important an event is. -/
inductive Event.Level where
  | trace | debug | warn
deriving DecidableEq, Repr

namespace Event

/-- The importance of an event. -/
def level : Event → Level
  | columnFound .. => .trace
  | stepJoined .. => .trace
  | frameOverLimit .. => .warn
  | _ => .debug

/-- What happened. -/
def message : Event → String
  | tableRegistered .. => "table registered"
  | relationDeclared .. => "relation declared"
  | columnFound .. => "resolved unqualified column"
  | planBuilt .. => "join plan built"
  | filterPrepared .. => "filter prepared"
  | stepJoined .. => "join step applied"
  | frameOverLimit .. => "join frame exceeds the configured limit"
  | filterEvaluated .. => "filter evaluated"
  | filterAnswered .. => "rfilter"
  | filterFailed .. => "rfilter failed"

/-- What it happened to, as named texts. -/
def fields : Event → List (String × String)
  | tableRegistered name id => [("table", name), ("id", id.text)]
  | relationDeclared r =>
    [("relation", r.name), ("source", r.source.text), ("target", r.target.text)]
  | columnFound column owner => [("column", column), ("owner", owner.text)]
  | planBuilt home steps => [("home", home.text), ("steps", toString steps)]
  | filterPrepared home expr joins =>
    [("home", home.text), ("expr", BoundColumn.exprText expr), ("joins", toString joins)]
  | stepJoined step rows => [("step", step.text), ("rows", toString rows)]
  | frameOverLimit relation limit => [("relation", relation), ("limit", toString limit)]
  | filterEvaluated frameRows kept =>
    [("frame_rows", toString frameRows), ("kept", toString kept)]
  | filterAnswered table expr rows =>
    [("table", table.text), ("expr", expr), ("rows", toString rows)]
  | filterFailed table expr failure =>
    [("table", table.text), ("expr", expr), ("error", failure.message)]

end Event

/-- How the importance of an event is shown. -/
def Event.Level.text : Event.Level → String
  | .trace => "TRACE"
  | .debug => "DEBUG"
  | .warn => "WARN"

/-- A computation that may fail and that logs events either way. -/
abbrev Traced := ExceptT Failure (StateM (Array Event))

/-- Log an event. -/
def emit (e : Event) : Traced Unit := modify (·.push e)

/-- Answer as a computation that cannot log does. -/
def answer {α : Type} (result : Except Failure α) : Traced α := ExceptT.mk (pure result)

/-- The answer of a computation, and the events that it logs. -/
def Traced.start {α : Type} (x : Traced α) : Except Failure α × Array Event := x.run.run #[]

/-- The answer of a computation. -/
def Traced.result {α : Type} (x : Traced α) : Except Failure α := x.start.1

end LinkedTables
