import LinkedTables.Failure

/-!
# Schemas

A schema knows the registered tables by name and the relations declared on each of them.  A table
is identified by its place in the order of registration; relations of a table are kept in the
order of declaration, and both are only ever appended to.

Nothing in the type says that the targets of relations are registered or that names differ.  The
operations that build a schema step by step see to that, but a schema can also be read from
stored data as it stands, and every function here is defined on that too.
-/

namespace LinkedTables

/-- A declared way to go from the rows of one table to the rows of another: those whose key cells
match. -/
structure Relation where
  source : TableId
  name : String
  target : TableId
  /-- the key column of the source -/
  onLeft : String
  /-- the key column of the target -/
  onRight : String
deriving DecidableEq, Inhabited, Repr

/-- A registered table as the schema sees it. -/
structure Schema.Entry where
  name : String
  relations : List Relation
deriving DecidableEq, Inhabited, Repr

/-- The registered tables and the relations declared on them. -/
structure Schema where
  entries : Array Schema.Entry
deriving DecidableEq, Inhabited, Repr

namespace Schema

/-- The schema without tables. -/
def empty : Schema := ⟨#[]⟩

/-- How many tables are registered. -/
def size (s : Schema) : Nat := s.entries.size

/-- The name of a table. -/
def tableName? (s : Schema) (id : TableId) : Option String := s.entries[id]?.map Entry.name

/-- How a table is called in messages: by its name, or by its identifier if it has none. -/
def nameOf (s : Schema) (id : TableId) : String := (s.tableName? id).getD id.text

/-- The first table of a name. -/
def tableId? (s : Schema) (name : String) : Option TableId :=
  s.entries.findIdx? (·.name == name)

/-- The relations declared on a table, in order. -/
def relationsOf (s : Schema) (id : TableId) : List Relation :=
  (s.entries[id]?.map Entry.relations).getD []

/-- The relation of a name that is declared on a table. -/
def relation? (s : Schema) (id : TableId) (name : String) : Option Relation :=
  (s.relationsOf id).find? (·.name == name)

/-- Register a table under a name of its own. -/
def addTable (s : Schema) (name : String) : Except Failure (Schema × TableId) :=
  match s.tableId? name with
  | some _ => .error (.duplicateTable name)
  | none => .ok (⟨s.entries.push ⟨name, []⟩⟩, s.size)

/-- Declare a relation on its source.  A frame holds each table once, so no table can be related
to itself. -/
def addRelation (s : Schema) (r : Relation) : Except Failure Schema :=
  match s.entries[r.target]?, s.entries[r.source]? with
  | none, _ => .error (.unknownTable r.target)
  | some _, none => .error (.unknownTable r.source)
  | some _, some entry =>
    if r.source = r.target then .error (.invalidInput (.selfRelation r.name entry.name))
    else if entry.relations.any (·.name == r.name) then
      .error (.duplicateRelation r.name entry.name)
    else
      .ok ⟨s.entries.setIfInBounds r.source { entry with relations := entry.relations ++ [r] }⟩

end Schema

end LinkedTables
