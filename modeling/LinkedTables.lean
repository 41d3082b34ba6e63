import LinkedTables.Logging
import LinkedTables.Storage.Schema
import LinkedTables.Storage.Settings
import LinkedTables.Storage.Table
import LinkedTables.Workspace
import LinkedTables.Proofs.Catalog.Filter
import LinkedTables.Proofs.Join.Minimality
import LinkedTables.Proofs.Filter.RoundTrip
import LinkedTables.Proofs.Join.Faithful
import LinkedTables.Proofs.Catalog.Agreement
import LinkedTables.Proofs.Catalog.Consistency
import LinkedTables.Proofs.Catalog.Connectives
import LinkedTables.Proofs.Catalog.Order
import LinkedTables.Proofs.Catalog.Selection
import LinkedTables.Proofs.Catalog.Strictness
import LinkedTables.Proofs.Catalog.Anchored
import LinkedTables.Proofs.Catalog.OutOfReach
import LinkedTables.Proofs.Workspace.Isolation
import LinkedTables.Proofs.Schema.BreadthFirst
import LinkedTables.Proofs.Cell.Keys
import LinkedTables.Proofs.Join.Enumeration
import LinkedTables.Proofs.Join.Overflow
import LinkedTables.Proofs.Join.ShortestPaths
import LinkedTables.Proofs.Join.Conflicts
import LinkedTables.Proofs.Catalog.Unqualified
import LinkedTables.Proofs.Catalog.Qualified
import LinkedTables.Proofs.Catalog.Candidates
import LinkedTables.Proofs.Catalog.Owners
import LinkedTables.Proofs.Filter.References
import LinkedTables.Proofs.Catalog.Spellings
import LinkedTables.Proofs.Join.Bounds
import LinkedTables.Proofs.Table.Derivation
import LinkedTables.Proofs.Cell.Comparison
import LinkedTables.Proofs.Filter.Positions
import LinkedTables.Proofs.Catalog.Log
import LinkedTables.Proofs.Storage.Codec
import LinkedTables.Proofs.Filter.Visits
import LinkedTables.Proofs.Filter.Calls
