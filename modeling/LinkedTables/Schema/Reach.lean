import LinkedTables.Schema

/-!
# Tables in reach

`Schema.reachable` lists the tables that can be reached from a home table by following relations,
nearest first, each once and with a shortest path to it.  The search keeps the tables that it has
met, and a queue of those whose relations it has not followed yet.  It takes the first table from
the queue and puts what its relations lead to behind the last one, in the order of declaration and
unless it has been met before.

Every table but the home table is put into the queue by a relation of its own.  So the queue is
empty after as many steps as there are relations, and one more for the home table.
-/

namespace LinkedTables

/-- A table in reach, and the relations that lead to it. -/
structure Reached where
  table : TableId
  path : List Relation
deriving DecidableEq, Inhabited, Repr

namespace Schema

/-- The targets of a list of relations that have not been met before, each reached by its relation
behind `path`. -/
def discover (seen : List TableId) (path : List Relation) : List Relation → List Reached
  | [] => []
  | r :: rest =>
    if r.target ∈ seen then discover seen path rest
    else ⟨r.target, path ++ [r]⟩ :: discover (r.target :: seen) path rest

/-- A search under way: the tables that have been met, and the queue of those whose relations have
not been followed yet. -/
structure Frontier where
  seen : List TableId
  queue : List Reached

namespace Frontier

/-- Take the first table from the queue, and put what it leads to behind the last one. -/
def next? (s : Schema) (f : Frontier) : Option (Reached × Frontier) :=
  match f.queue with
  | [] => none
  | x :: rest =>
    let found := discover f.seen x.path (s.relationsOf x.table)
    some (x, ⟨found.map Reached.table ++ f.seen, rest ++ found⟩)

/-- The tables taken from the queue in at most `steps` steps. -/
def run (s : Schema) : (steps : Nat) → Frontier → List Reached
  | 0, _ => []
  | steps + 1, f =>
    match f.next? s with
    | none => []
    | some (x, f) => x :: run s steps f

end Frontier

/-- The search begins with a home table alone, if it is registered. -/
def frontier (s : Schema) (home : TableId) : Frontier :=
  if home < s.size then ⟨[home], [⟨home, []⟩]⟩ else ⟨[], []⟩

/-- The relations of all tables. -/
def allRelations (s : Schema) : List Relation := s.entries.toList.flatMap Entry.relations

/-- The tables in reach of a home table, nearest first, the home table itself included. -/
def reachable (s : Schema) (home : TableId) : List Reached :=
  (s.frontier home).run s (s.allRelations.length + 1)

/-- The nearest relation of a name, behind the path to the table it is declared on. -/
def findRelation? (s : Schema) (home : TableId) (name : String) : Option (List Relation) :=
  (s.reachable home).findSome? fun x => (s.relation? x.table name).map fun r => x.path ++ [r]

end Schema

end LinkedTables
