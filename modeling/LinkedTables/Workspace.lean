import LinkedTables.Catalog

/-!
# Workspaces

Several catalogs side by side.  A workspace is one of them; a handle is a table in one of them.
Both are only names for a place in the `Workspaces`, so two handles of one workspace see the same
relations, tables and settings, and what happens in one workspace cannot be seen in another.
-/

namespace LinkedTables

/-- The catalogs of all workspaces, in the order in which they were opened. -/
structure Workspaces where
  catalogs : Array Catalog
deriving DecidableEq, Inhabited, Repr

/-- A workspace, by its place in the order of opening. -/
structure Workspace where
  index : Nat
deriving DecidableEq, Inhabited, Repr

/-- A registered table and the workspace it is registered in. -/
structure TableHandle where
  workspace : Workspace
  id : TableId
deriving DecidableEq, Inhabited, Repr

/-- The diagnostic text of a handle. -/
def TableHandle.debugText (h : TableHandle) : String :=
  "RelationalTable \x7b id: TableId(" ++ toString (h.id : Nat) ++ ") \x7d"

namespace Workspaces

/-- No workspace at all. -/
def none : Workspaces := ⟨#[]⟩

/-- Open a workspace of its own. -/
def openNew (ws : Workspaces) (settings : Settings) : Workspaces × Workspace :=
  (⟨ws.catalogs.push (.empty settings)⟩, ⟨ws.catalogs.size⟩)

/-- The catalog of a workspace; one that was never opened is empty. -/
def catalog (ws : Workspaces) (w : Workspace) : Catalog :=
  ws.catalogs[w.index]?.getD (.empty .standard)

/-- Replace the catalog of a workspace. -/
def update (ws : Workspaces) (w : Workspace) (c : Catalog) : Workspaces :=
  ⟨ws.catalogs.setIfInBounds w.index c⟩

/-! ## Calls on a workspace -/

/-- Register a table under a name of its own. -/
def addTable (ws : Workspaces) (w : Workspace) (name : String) (t : Table) :
    Traced (Workspaces × TableHandle) := do
  let (c, id) ← (ws.catalog w).addTable name t
  pure (ws.update w c, ⟨w, id⟩)

/-- The handle of the table of a name. -/
def lookup? (ws : Workspaces) (w : Workspace) (name : String) : Option TableHandle :=
  ((ws.catalog w).schema.tableId? name).map (⟨w, ·⟩)

/-- The settings of a workspace. -/
def settings (ws : Workspaces) (w : Workspace) : Settings := (ws.catalog w).settings

/-- Replace the settings of a workspace. -/
def withSettings (ws : Workspaces) (w : Workspace) (settings : Settings) : Workspaces :=
  ws.update w ((ws.catalog w).withSettings settings)

/-- How many tables a workspace has. -/
def size (ws : Workspaces) (w : Workspace) : Nat := (ws.catalog w).size

/-! ## Calls on a handle -/

/-- The name a table was registered under. -/
def name (ws : Workspaces) (h : TableHandle) : Except Failure String :=
  match (ws.catalog h.workspace).schema.tableName? h.id with
  | some name => .ok name
  | .none => .error (.unknownTable h.id)

/-- The table as it was registered. -/
def data (ws : Workspaces) (h : TableHandle) : Except Failure Table :=
  (ws.catalog h.workspace).database.table h.id

/-- The relations declared on a table, in order. -/
def relations (ws : Workspaces) (h : TableHandle) : List Relation :=
  (ws.catalog h.workspace).schema.relationsOf h.id

/-- Declare a relation from one table to another of the same workspace. -/
def relate (ws : Workspaces) (h : TableHandle) (name : String) (other : TableHandle)
    (onLeft onRight : String) : Traced Workspaces := do
  if h.workspace ≠ other.workspace then throw .foreignTable
  let c ← (ws.catalog h.workspace).relate ⟨h.id, name, other.id, onLeft, onRight⟩
  pure (ws.update h.workspace c)

/-- The rows of a table that a filter keeps; how it ended is logged. -/
def filter (ws : Workspaces) (h : TableHandle) (text : String) : Traced Table :=
  tryCatch
    (do
      let t ← (ws.catalog h.workspace).filter h.id text
      emit (.filterAnswered h.id text t.rowCount)
      pure t)
    (fun failure => do
      emit (.filterFailed h.id text failure)
      throw failure)

/-- The joins that a filter on a table would run with. -/
def explain (ws : Workspaces) (h : TableHandle) (text : String) : Traced JoinPlan :=
  (ws.catalog h.workspace).explain h.id text

end Workspaces

end LinkedTables
