import Mathlib
import LinkedTables.Filter.Evaluation
import LinkedTables.Proofs.Join.Frame
import LinkedTables.Proofs.Table.Restriction
import LinkedTables.Proofs.Traced

/-!
# Which rows a filter keeps

`Database.Keeps` is the meaning of a filter: a row of the home table is kept if some assignment
begins there, follows every step of the plan, and makes the filter true.  One assignment has to do
for the whole filter, so that a negation is about one joined row and not about all of them.

The evaluation makes a mask over the joined rows, marks rows of the home table and then selects the
marked ones.  The four parts are

* `Expr.mask_eq_map_holds` — the mask of a filter is its truth row by row;
* `Expr.holds_mapColumns` — a filter reads the same cells through a joined row as through its
  assignment;
* `Database.getElem?_marks` — the rows marked are the home rows of the joined rows where the filter
  is true;
* `Table.select_eq_restrict` — to select by marks is to restrict the table to the rows marked.
-/

namespace LinkedTables

/-! ## Truth -/

namespace Expr

variable {γ δ : Type} {cell : γ → Cell}

lemma holds_and_iff {terms : List (Expr γ)} :
    (and terms).holds cell = true ↔ ∀ term ∈ terms, term.holds cell = true := by
  rw [holds]
  induction terms with
  | nil => simp [allHold]
  | cons term rest ih => simp [allHold, ih]

lemma holds_or_iff {terms : List (Expr γ)} :
    (or terms).holds cell = true ↔ ∃ term ∈ terms, term.holds cell = true := by
  rw [holds]
  induction terms with
  | nil => simp [anyHolds]
  | cons term rest ih => simp [anyHolds, ih]

lemma holds_not_iff {term : Expr γ} :
    (not term).holds cell = true ↔ ¬ term.holds cell = true := by
  rw [holds]
  simp

/-- A filter is true after a replacement of its columns if the old columns read the same. -/
lemma holds_mapColumns {f : γ → δ} {cell' : δ → Cell} {e : Expr γ}
    (h : ∀ c ∈ e.columns, cell' (f c) = cell c) :
    (e.mapColumns f).holds cell' = true ↔ e.holds cell = true := by
  induction e with
  | compare column op literal =>
    rw [mapColumns_compare, holds, holds, h column (by simp)]
  | and terms ih =>
    have hterm : ∀ term ∈ terms, ((term.mapColumns f).holds cell' = true
        ↔ term.holds cell = true) := fun term ht => ih term ht fun c hc =>
      h c (mem_columns_and ht hc)
    rw [mapColumns_and, holds_and_iff, holds_and_iff, List.forall_mem_map]
    exact forall₂_congr hterm
  | or terms ih =>
    have hterm : ∀ term ∈ terms, ((term.mapColumns f).holds cell' = true
        ↔ term.holds cell = true) := fun term ht => ih term ht fun c hc =>
      h c (mem_columns_or ht hc)
    rw [mapColumns_or, holds_or_iff, holds_or_iff]
    constructor
    · rintro ⟨term', hmem, hholds⟩
      obtain ⟨term, ht, rfl⟩ := List.mem_map.1 hmem
      exact ⟨term, ht, (hterm term ht).1 hholds⟩
    · rintro ⟨term, ht, hholds⟩
      exact ⟨term.mapColumns f, List.mem_map_of_mem ht, (hterm term ht).2 hholds⟩
  | not term ih =>
    have hterm : ∀ c ∈ term.columns, cell' (f c) = cell c := by
      intro c hc
      exact h c (by rwa [columns_not])
    rw [mapColumns_not, holds_not_iff, holds_not_iff, ih hterm]

/-- A filter depends on what its columns read, and on nothing else. -/
lemma holds_congr {cell' : γ → Cell} {e : Expr γ} (h : ∀ c ∈ e.columns, cell c = cell' c) :
    e.holds cell = true ↔ e.holds cell' = true := by
  have heq : e.mapColumns cell = e.mapColumns cell' := (mapColumns_eq_mapColumns_iff e).2 h
  have hread : ∀ cell : γ → Cell, (e.mapColumns cell).holds id = true ↔ e.holds cell = true :=
    fun cell => holds_mapColumns fun _ _ => rfl
  rw [← hread cell, heq, hread cell']

/-! ## Masks -/

/-- The mask of a chain, if the masks of its terms are what they should be. -/
lemma combineMasks_map {rows : List FrameRow} {connect : Bool → Bool → Bool}
    {terms : List (Expr CellSource)}
    (h : ∀ term ∈ terms, term.mask rows = rows.map fun row => term.holds (CellSource.read row)) :
    ∀ truth : FrameRow → Bool, combineMasks rows connect (rows.map truth) terms
      = rows.map fun row => terms.foldl
        (fun carried term => connect carried (term.holds (CellSource.read row))) (truth row) := by
  -- for any mask that is carried along, since each term changes it
  induction terms with
  | nil => exact fun truth => rfl
  | cons term rest ih =>
    intro truth
    rw [combineMasks, h term (by simp), List.zipWith_map, List.zipWith_self,
      ih fun term' hterm' => h term' (by simp [hterm'])]
    rfl

lemma foldl_and_holds {terms : List (Expr γ)} :
    ∀ truth : Bool, terms.foldl (fun carried term => carried && term.holds cell) truth
      = (truth && allHold cell terms) := by
  induction terms with
  | nil => simp [allHold]
  | cons term rest ih => simp [allHold, ih, Bool.and_assoc]

lemma foldl_or_holds {terms : List (Expr γ)} :
    ∀ truth : Bool, terms.foldl (fun carried term => carried || term.holds cell) truth
      = (truth || anyHolds cell terms) := by
  induction terms with
  | nil => simp [anyHolds]
  | cons term rest ih => simp [anyHolds, ih, Bool.or_assoc]

/-- **The mask of a filter is its truth row by row.** -/
theorem mask_eq_map_holds (rows : List FrameRow) (e : Expr CellSource) :
    e.mask rows = rows.map fun row => e.holds (CellSource.read row) := by
  induction e with
  | compare source op literal =>
    rw [mask]
    simp only [holds]
  | and terms ih =>
    rw [mask, ← List.map_const', combineMasks_map ih]
    simp only [holds, foldl_and_holds, Bool.true_and]
  | or terms ih =>
    rw [mask, ← List.map_const', combineMasks_map ih]
    simp only [holds, foldl_or_holds, Bool.false_or]
  | not term ih =>
    rw [mask, ih, List.map_map]
    simp only [holds, Function.comp_def]

end Expr

namespace Database

variable {db : Database} {p : JoinPlan} {f : Frame} {e : Expr BoundColumn}

/-! ## Marks -/

lemma size_markHome (marks : Array Bool) (entry : FrameRow × Bool) :
    (markHome marks entry).size = marks.size := by
  simp only [markHome]
  split <;> simp

lemma size_foldl_markHome (entries : List (FrameRow × Bool)) :
    ∀ marks : Array Bool, (entries.foldl markHome marks).size = marks.size := by
  induction entries with
  | nil => exact fun marks => rfl
  | cons entry rest ih =>
    intro marks
    rw [List.foldl_cons, ih, size_markHome]

lemma getElem?_markHome {marks : Array Bool} {row : FrameRow} {truth : Bool} {i : ℕ} :
    (markHome marks (row, truth))[i]? = some true ↔ marks[i]? = some true
      ∨ i < marks.size ∧ truth = true ∧ row.head?.join = some i := by
  cases truth with
  | false => simp [markHome]
  | true =>
    cases hrow : row.head?.join with
    | none => simp [markHome, hrow]
    | some j =>
      simp only [markHome, hrow, Array.getElem?_setIfInBounds, Option.some.injEq, true_and]
      by_cases hij : j = i
      · subst hij
        by_cases hlt : j < marks.size <;> simp [hlt]
      · simp [hij]

lemma getElem?_foldl_markHome {entries : List (FrameRow × Bool)} {i : ℕ} :
    ∀ {marks : Array Bool}, (entries.foldl markHome marks)[i]? = some true
      ↔ marks[i]? = some true ∨ i < marks.size
        ∧ ∃ entry ∈ entries, entry.2 = true ∧ entry.1.head?.join = some i := by
  induction entries with
  | nil =>
    intro marks
    simp
  | cons entry rest ih =>
    intro marks
    rw [List.foldl_cons, ih, getElem?_markHome, size_markHome]
    simp only [List.exists_mem_cons_iff]
    tauto

lemma length_marks (size : ℕ) (rows : List FrameRow) (e : Expr CellSource) :
    (marks size rows e).length = size := by
  simp [marks, size_foldl_markHome]

/-- **A row is marked if it stands in a joined row that makes the filter true.** -/
lemma getElem?_marks {size : ℕ} {rows : List FrameRow} {e : Expr CellSource} {i : ℕ} :
    (marks size rows e)[i]? = some true ↔ i < size
      ∧ ∃ row ∈ rows, e.holds (CellSource.read row) = true ∧ row.head?.join = some i := by
  rw [marks, Array.getElem?_toList, getElem?_foldl_markHome, Array.size_replicate]
  have hnone : (Array.replicate size false)[i]? ≠ some true := by
    rw [Array.getElem?_replicate]
    split <;> simp
  rw [Expr.mask_eq_map_holds, ← List.map_prod_left_eq_zip]
  simp only [hnone, false_or, List.mem_map, exists_exists_and_eq_and]

/-! ## The meaning of a filter -/

/-- The cell that an assignment gives to a column; one of a missing table is null. -/
def read (db : Database) (s : Assignment) (c : BoundColumn) : Cell :=
  (db.cellAt s c.table c.column).getD .null

/-- A row of the home table is kept by a filter: one assignment that begins at the row follows all
steps and makes the filter true. -/
def Keeps (db : Database) (home : TableId) (steps : List JoinStep) (e : Expr BoundColumn)
    (i : ℕ) : Prop :=
  ∃ s : Assignment, s home = some i ∧ (∀ t ∈ steps, db.Follows s t) ∧ e.holds (db.read s) = true

/-- Where the rows of a frame have the cells of a column. -/
def sourceOf (db : Database) (f : Frame) (c : BoundColumn) : CellSource :=
  ⟨(f.slot? c.table).getD 0, (db.tables[c.table]?.map (Frame.cellsOf · c.column)).getD #[]⟩

lemma locate_eq_ok {c : BoundColumn} {t : Table} (ht : db.tables[c.table]? = some t)
    (hc : c.table ∈ f.tables) : db.locate p f c = .ok (db.sourceOf f c) := by
  obtain ⟨slot, hslot, -⟩ := Frame.exists_slot hc
  simp only [locate, table_eq_ok_iff.2 ht, hslot, sourceOf, ht]
  rfl

/-- A column reads the same through a joined row as through its assignment. -/
lemma read_sourceOf {c : BoundColumn} {t : Table} (ht : db.tables[c.table]? = some t)
    (hc : c.table ∈ f.tables) (s : Assignment) :
    (db.sourceOf f c).read (f.tables.map s) = db.read s c := by
  obtain ⟨slot, hslot, hget⟩ := Frame.exists_slot hc
  simp only [sourceOf, hslot, ht, CellSource.read, read, cellAt, Option.getD_some, Option.map_some,
    Frame.getElem?_cellsOf, List.getElem?_map, hget, Option.join_some]
  rfl

/-- **The evaluation keeps the rows that the filter means.** -/
theorem exists_evaluate (hp : p.Runnable)
    (hregistered : ∀ id ∈ p.tables, ∃ t, db.tables[id]? = some t)
    {home : Table} (hhome : db.tables[p.home]? = some home)
    (howners : ∀ c ∈ e.columns, c.table ∈ p.tables) :
    ∃ rows : List ℕ, rows.Pairwise (· < ·)
      ∧ (∀ i, i ∈ rows ↔ i < home.rowCount ∧ db.Keeps p.home p.steps e i)
      ∧ (db.evaluate none p e).Returns (.ok (home.restrict rows)) := by
  obtain ⟨f, hf, h⟩ := hp.exists_buildFrame hregistered hhome
  have hcolumn : ∀ c ∈ e.columns, c.table ∈ f.tables ∧ ∃ t, db.tables[c.table]? = some t := by
    intro c hc
    rw [h.tables]
    exact ⟨howners c hc, hregistered _ (howners c hc)⟩
  have hlocate : e.mapColumnsM (db.locate p f) = .ok (e.mapColumns (db.sourceOf f)) := by
    refine Expr.mapColumnsM_eq_ok fun c hc => ?_
    obtain ⟨hmem, t, ht⟩ := hcolumn c hc
    exact locate_eq_ok ht hmem
  have hholds : ∀ s : Assignment, (e.mapColumns (db.sourceOf f)).holds
      (CellSource.read (f.tables.map s)) = true ↔ e.holds (db.read s) = true := by
    intro s
    refine Expr.holds_mapColumns fun c hc => ?_
    obtain ⟨hmem, t, ht⟩ := hcolumn c hc
    exact read_sourceOf ht hmem s
  have hhead : ∀ s : Assignment, (f.tables.map s).head?.join = s p.home := by
    intro s
    simp [h.tables]
  let kept := marks home.rowCount f.rows.toList (e.mapColumns (db.sourceOf f))
  refine ⟨Table.markedRows kept, Table.pairwise_markedRows kept, ?_, ?_⟩
  · intro i
    rw [Table.mem_markedRows, getElem?_marks]
    refine and_congr_right fun hi => ?_
    simp only [Array.mem_toList_iff, Keeps]
    constructor
    · rintro ⟨row, hrow, htrue, hi'⟩
      obtain ⟨s, -, hfollows, rfl⟩ := (h.rows row).1 hrow
      exact ⟨s, (hhead s).symm.trans hi', hfollows, (hholds s).1 htrue⟩
    · rintro ⟨s, hs, hfollows, htrue⟩
      exact ⟨f.tables.map s, (h.rows _).2 ⟨s, ⟨i, hi, hs⟩, hfollows, rfl⟩, (hholds s).2 htrue,
        (hhead s).trans hs⟩
  · simp only [evaluate, table_eq_ok_iff.2 hhome]
    refine (Traced.returns_answer _).bind_ok (hf.bind_ok ?_)
    rw [hlocate]
    refine (Traced.returns_answer _).bind_ok (Traced.Returns.after_emit _ ?_)
    have hselect := Table.select_eq_restrict (length_marks home.rowCount f.rows.toList
      (e.mapColumns (db.sourceOf f)))
    rw [hselect]
    exact Traced.returns_answer _

end Database

end LinkedTables
