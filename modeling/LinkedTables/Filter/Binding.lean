import LinkedTables.Event
import LinkedTables.Schema.Reach
import LinkedTables.Settings
import LinkedTables.Table

/-!
# Binding column references

Each column reference of a filter is bound to the one table that owns the column, before any row
is read.

* `self.c` is a column of the home table.
* `r.s.c` follows the nearest relation `r`, then the relation `s` of the table reached, and is a
  column of the table at the end.  If there is no relation `r` in reach, the name of the home table
  may stand in its place.
* `c` alone is a column of the home table or of the one table in reach that has it; the settings
  say which comes first.
-/

namespace LinkedTables

/-- The registered tables and what is declared on them; a table is found under its identifier. -/
structure Database where
  schema : Schema
  tables : Array Table
deriving DecidableEq, Inhabited, Repr

/-- What a single reference is bound to: a column, the path that leads to it if the reference
spells one out, and whether the tables in reach were searched for it. -/
structure Binding where
  column : BoundColumn
  path : List Relation
  searched : Bool
deriving DecidableEq, Repr

namespace Database

/-- The table of an identifier. -/
def table (db : Database) (id : TableId) : Except Failure Table :=
  match db.tables[id]? with
  | some t => .ok t
  | none => .error (.unknownTable id)

/-- Whether a table is there and has a column. -/
def hasColumn (db : Database) (id : TableId) (name : String) : Bool :=
  db.tables[id]?.any (·.hasColumn name)

/-! ## One reference -/

/-- Bind a column of a known table. -/
def bindOn (db : Database) (id : TableId) (path : List Relation) (name : String) :
    Except Failure Binding :=
  if db.hasColumn id name then .ok ⟨⟨id, name⟩, path, false⟩
  else .error (.unknownColumn name [db.schema.nameOf id])

/-- The path that a first segment stands for: the way to the nearest relation of that name, or no
relation at all if it is the name of the home table. -/
def firstHops (db : Database) (home : TableId) (segment : String) :
    Except Failure (List Relation) :=
  match db.schema.findRelation? home segment with
  | some path => .ok path
  | none =>
    if db.schema.tableName? home = some segment then .ok []
    else .error (.unknownRelation segment (db.schema.nameOf home))

/-- The table that a path ends at. -/
def endOf (home : TableId) (path : List Relation) : TableId :=
  (path.getLast?.map Relation.target).getD home

/-- Follow relations by name behind a path. -/
def followHops (db : Database) (home : TableId) (path : List Relation) :
    List String → Except Failure (List Relation)
  | [] => .ok path
  | segment :: rest =>
    match db.schema.relation? (endOf home path) segment with
    | some r => followHops db home (path ++ [r]) rest
    | none => .error (.unknownRelation segment (db.schema.nameOf (endOf home path)))

/-- Bind a reference with a path. -/
def bindPath (db : Database) (home : TableId) (segments : List String) (name : String) :
    Except Failure Binding :=
  match segments with
  | [] => db.bindOn home [] name
  | first :: rest => do
    let path ← db.firstHops home first
    let path ← db.followHops home path rest
    db.bindOn (endOf home path) path name

/-- Bind an unqualified reference by searching all tables in reach. -/
def search (db : Database) (home : TableId) (name : String) : Except Failure Binding :=
  let reached := (db.schema.reachable home).map Reached.table
  match reached.filter fun id => db.hasColumn id name with
  | [] => .error (.unknownColumn name (reached.map db.schema.nameOf))
  | [owner] => .ok ⟨⟨owner, name⟩, [], true⟩
  | owners => .error (.ambiguousColumn name (owners.map db.schema.nameOf))

/-- Bind a reference. -/
def bind (db : Database) (home : TableId) (rule : UnqualifiedRule) (r : Reference) :
    Except Failure Binding :=
  match r.form with
  | .home name => db.bindOn home [] name
  | .path segments name => db.bindPath home segments name
  | .plain name =>
    if rule = .preferHome ∧ db.hasColumn home name then .ok ⟨⟨home, name⟩, [], false⟩
    else db.search home name

/-! ## Whole filters -/

/-- Bind a reference and tell if a search found it. -/
def bindTraced (db : Database) (home : TableId) (rule : UnqualifiedRule) (r : Reference) :
    Traced Binding := do
  let b ← answer (db.bind home rule r)
  if b.searched then emit (.columnFound b.column.column b.column.table)
  pure b

/-- The paths that bindings spell out. -/
def explicitPaths (bindings : List Binding) : List ExplicitPath :=
  distinct (bindings.filterMap fun b =>
    if b.path.isEmpty then none else some ⟨b.column.table, b.path⟩)

/-- Bind all references of a filter, from left to right. -/
def bindFilter (db : Database) (home : TableId) (rule : UnqualifiedRule) (e : Expr Reference) :
    Traced BoundFilter := do
  let _ ← answer (db.table home)
  let bound ← e.mapColumnsM (db.bindTraced home rule)
  pure ⟨bound.mapColumns Binding.column, explicitPaths bound.columns⟩

end Database

end LinkedTables
