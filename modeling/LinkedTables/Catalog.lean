import LinkedTables.Filter.Evaluation
import LinkedTables.Filter.Parser
import LinkedTables.Join.Planning

/-!
# Catalogs

A catalog holds the registered tables, the relations declared between them, and the settings under
which filters run.  Tables and relations are only ever added; a call that fails changes nothing.
-/

namespace LinkedTables

/-- Registered tables with their relations, and settings. -/
structure Catalog where
  database : Database
  settings : Settings
deriving DecidableEq, Inhabited, Repr

namespace Catalog

/-- A catalog without tables. -/
def empty (settings : Settings) : Catalog := ⟨⟨.empty, #[]⟩, settings⟩

/-- The relations and the names of the tables. -/
def schema (c : Catalog) : Schema := c.database.schema

/-- How many tables are registered. -/
def size (c : Catalog) : Nat := c.database.tables.size

/-- A registered table. -/
def table? (c : Catalog) (id : TableId) : Option Table := c.database.tables[id]?

/-- Replace the settings. -/
def withSettings (c : Catalog) (settings : Settings) : Catalog := { c with settings := settings }

/-! ## Declarations -/

/-- Register a table under a name of its own. -/
def addTable (c : Catalog) (name : String) (t : Table) : Traced (Catalog × TableId) := do
  let (schema, id) ← answer (c.schema.addTable name)
  emit (.tableRegistered name id)
  pure ({ c with database := ⟨schema, c.database.tables.push t⟩ }, id)

/-- Require that a table is registered and has a column. -/
def requireColumn (c : Catalog) (id : TableId) (column : String) : Except Failure Unit := do
  let t ← c.database.table id
  if t.hasColumn column then pure () else .error (.unknownColumn column [c.schema.nameOf id])

/-- Declare a relation, whose key columns must be there. -/
def relate (c : Catalog) (r : Relation) : Traced Catalog := do
  answer (c.requireColumn r.source r.onLeft)
  answer (c.requireColumn r.target r.onRight)
  let schema ← answer (c.schema.addRelation r)
  emit (.relationDeclared r)
  pure { c with database := { c.database with schema := schema } }

/-! ## Filters -/

/-- Read, bind and plan a filter, without looking at any row. -/
def prepare (c : Catalog) (home : TableId) (text : String) :
    Traced (BoundFilter × JoinPlan) := do
  if c.settings.maxExpressionLength < text.utf8ByteSize then
    throw (.invalidInput (.tooLong text.utf8ByteSize c.settings.maxExpressionLength))
  let parsed ← answer ((parseFilter text).mapError .malformed)
  let bound ← c.database.bindFilter home c.settings.unqualified parsed
  let plan ← answer (c.schema.plan home bound)
  emit (.planBuilt home plan.steps.length)
  emit (.filterPrepared home bound.expr plan.steps.length)
  pure (bound, plan)

/-- The joins that a filter on a home table would run with. -/
def explain (c : Catalog) (home : TableId) (text : String) : Traced JoinPlan := do
  return (← c.prepare home text).2

/-- The rows of a home table that a filter keeps. -/
def filter (c : Catalog) (home : TableId) (text : String) : Traced Table := do
  let (bound, plan) ← c.prepare home text
  c.database.evaluate c.settings.maxFrameRows plan bound.expr

end Catalog

end LinkedTables
