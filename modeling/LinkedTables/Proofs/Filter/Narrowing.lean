import Mathlib
import LinkedTables.Proofs.Filter.Evaluation

/-!
# Filtering a part of a table

Two databases are compared that differ in one table only, the home table of a filter, of which the
second one has the rows at some positions (`Database.Narrowed`).

* **Binding does not look at rows**, so a filter is bound in both to the same columns and paths
  (`Narrowed.bindFilter`).
* **A row is kept for what it is, not for where it stands** (`Narrowed.keeps_iff`).  The home table
  is not the target of any step, so nothing but the row that an assignment begins at is ever read of
  it.  An assignment that begins at a row of the part says the same of cells and matches as the one
  that begins at this row in the whole table.
-/

namespace LinkedTables

namespace Database

variable {db db' : Database} {home : TableId} {t : Table} {rows : List ℕ}

/-- One database has in the place of a table a part of it, and is the same otherwise. -/
structure Narrowed (db db' : Database) (home : TableId) (t : Table) (rows : List ℕ) : Prop where
  schema : db'.schema = db.schema
  whole : db.tables[home]? = some t
  part : db'.tables[home]? = some (t.restrict rows)
  other : ∀ id, id ≠ home → db'.tables[id]? = db.tables[id]?
  sorted : rows.Pairwise (· < ·)
  lt_rowCount : ∀ i ∈ rows, i < t.rowCount

/-! ## Binding -/

lemma followHops_congr (h : db'.schema = db.schema) {segments : List String} :
    ∀ path, db'.followHops home path segments = db.followHops home path segments := by
  induction segments with
  | nil => exact fun _ => rfl
  | cons segment rest ih =>
    intro path
    simp only [followHops, h, ih]

/-- How a reference is bound is told by the schema and the columns of the tables. -/
lemma bind_congr (h : db'.schema = db.schema)
    (hcolumns : ∀ id name, db'.hasColumn id name = db.hasColumn id name) (rule : UnqualifiedRule)
    (r : Reference) : db'.bind home rule r = db.bind home rule r := by
  simp only [bind, bindPath, bindOn, firstHops, search, followHops_congr h, hcolumns, h]

lemma Narrowed.hasColumn (h : Narrowed db db' home t rows) (id : TableId) (name : String) :
    db'.hasColumn id name = db.hasColumn id name := by
  by_cases hid : id = home
  · simp [Database.hasColumn, hid, h.whole, h.part]
  · simp only [Database.hasColumn, h.other id hid]

/-- **Binding does not look at rows.** -/
lemma Narrowed.bindFilter (h : Narrowed db db' home t rows) {rule : UnqualifiedRule}
    {e : Expr Reference} {f : BoundFilter} (hf : (db.bindFilter home rule e).result = .ok f) :
    (db'.bindFilter home rule e).result = .ok f := by
  obtain ⟨-, hbound, rfl⟩ := bindFilter_eq_ok_iff.1 hf
  have hbind : ∀ r, db'.bind home rule r = db.bind home rule r :=
    bind_congr h.schema h.hasColumn rule
  have hbinding : db'.bindingOf home rule = db.bindingOf home rule :=
    funext fun r => by simp only [bindingOf, hbind]
  refine bindFilter_eq_ok_iff.2 ⟨⟨_, table_eq_ok_iff.2 h.part⟩, ?_, ?_⟩
  · simpa only [hbind] using hbound
  · rw [hbinding]

/-! ## Rows kept -/

section

variable {s s' : Assignment} {i j : ℕ} (h : Narrowed db db' home t rows) (hrow : rows[j]? = some i)
  (hs : s home = some i) (hs' : s' home = some j) (hsame : ∀ id, id ≠ home → s' id = s id)
include h hrow hs hs' hsame

lemma Narrowed.cellAt (id : TableId) (column : String) :
    db'.cellAt s' id column = db.cellAt s id column := by
  by_cases hid : id = home
  · subst hid
    simp only [Database.cellAt, h.whole, h.part, hs, hs']
    show (t.restrict rows).cell? j column = t.cell? i column
    rw [Table.cell?_restrict h.sorted, hrow]
    rfl
  · simp only [Database.cellAt, h.other id hid, hsame id hid]

lemma Narrowed.follows_iff {step : JoinStep} (hstep : step.target ≠ home) :
    db'.Follows s' step ↔ db.Follows s step := by
  simp only [Follows, Matches, h.cellAt hrow hs hs' hsame, h.other _ hstep, hsame _ hstep]

lemma Narrowed.holds_iff {e : Expr BoundColumn} :
    e.holds (db'.read s') = true ↔ e.holds (db.read s) = true :=
  Expr.holds_congr fun c _ => by rw [read, read, h.cellAt hrow hs hs' hsame]

end

/-- **A row is kept for what it is**, and not for where it stands. -/
theorem Narrowed.keeps_iff (h : Narrowed db db' home t rows) {steps : List JoinStep}
    (hsteps : ∀ step ∈ steps, step.target ≠ home) {e : Expr BoundColumn} {i j : ℕ}
    (hrow : rows[j]? = some i) : db'.Keeps home steps e j ↔ db.Keeps home steps e i := by
  constructor
  · rintro ⟨s', hs', hfollows, htrue⟩
    have hs : Function.update s' home (some i) home = some i := Function.update_self ..
    have hsame : ∀ id, id ≠ home → s' id = Function.update s' home (some i) id :=
      fun id hid => (Function.update_of_ne hid ..).symm
    exact ⟨_, hs, fun step hstep =>
      (h.follows_iff hrow hs hs' hsame (hsteps step hstep)).1 (hfollows step hstep),
      (h.holds_iff hrow hs hs' hsame).1 htrue⟩
  · rintro ⟨s, hs, hfollows, htrue⟩
    have hs' : Function.update s home (some j) home = some j := Function.update_self ..
    have hsame : ∀ id, id ≠ home → Function.update s home (some j) id = s id :=
      fun id hid => Function.update_of_ne hid ..
    exact ⟨_, hs', fun step hstep =>
      (h.follows_iff hrow hs hs' hsame (hsteps step hstep)).2 (hfollows step hstep),
      (h.holds_iff hrow hs hs' hsame).2 htrue⟩

end Database

end LinkedTables
