import Mathlib
import LinkedTables.Proofs.Table.Restriction

/-!
# What a table is built from

A table keeps its cells by column and is given them by row, or by column as well.  The main
statement is that it holds what it was given (`Table.Holds`), and that it does not matter in which
of the two ways it was given it (`Table.exists_ofRows_iff`).

* **Both constructors check the same**: no name stands twice, and there is a cell for every row and
  column.  What passes is a table of fresh rows (`ofRows_eq_ok_iff`, `ofColumns_eq_ok_iff`).
* **Taking rows apart loses no cell** (`transposes_columnsOf`), and names and cells are all that
  there is to a list of columns (`Transposes.unique`).

One thing is lost on the way.  The rows are counted once they have become columns, so rows that have
no cells are not counted: **without names a table has no rows**, however many it was given
(`ofRows_without_names`).
-/

namespace LinkedTables.Table

variable {names : List String} {rows : List (List Cell)} {columns : List Column} {t : Table}

/-! ## What is checked -/

lemma duplicateAfter?_eq_none_iff {seen : List String} :
    duplicateAfter? seen names = none ↔ names.Nodup ∧ ∀ name ∈ names, name ∉ seen := by
  induction names generalizing seen with
  | nil => simp [duplicateAfter?]
  | cons name rest ih =>
    rw [duplicateAfter?]
    split_ifs with hseen
    · simp [hseen]
    · rw [ih, List.nodup_cons]
      simp only [List.mem_cons, not_or, forall_eq_or_imp]
      grind

/-- Names are refused if one of them stands twice. -/
lemma checkNames_eq_ok_iff : checkNames names = .ok () ↔ names.Nodup := by
  have hnone : duplicateAfter? [] names = none ↔ names.Nodup := by
    simp [duplicateAfter?_eq_none_iff]
  rw [← hnone, checkNames]
  cases duplicateAfter? [] names <;> simp

lemma firstOfOtherWidth?_eq_none_iff {width : ℕ} :
    ∀ {i : ℕ}, firstOfOtherWidth? width i rows = none ↔ ∀ row ∈ rows, row.length = width := by
  induction rows with
  | nil => simp [firstOfOtherWidth?]
  | cons row rest ih =>
    intro i
    rw [firstOfOtherWidth?, List.forall_mem_cons]
    split_ifs with hwidth
    · simp [ih, hwidth]
    · simp [hwidth]

/-- The columns that rows are taken apart into. -/
def columnsOf (names : List String) (rows : List (List Cell)) : List Column :=
  names.mapIdx fun j name => ⟨name, (rows.map fun row => row.getD j .null).toArray⟩

/-- **Rows make a table** if no name stands twice and every row has one cell for each name. -/
lemma ofRows_eq_ok_iff : ofRows names rows = .ok t
    ↔ names.Nodup ∧ (∀ row ∈ rows, row.length = names.length)
      ∧ t = fresh (columnsOf names rows) := by
  rw [← checkNames_eq_ok_iff, ← firstOfOtherWidth?_eq_none_iff (i := 0), ofRows]
  cases checkNames names with
  | error x => simp [bind, Except.bind]
  | ok _ =>
    cases firstOfOtherWidth? names.length 0 rows with
    | none => simp [bind, Except.bind, pure, Except.pure, columnsOf, eq_comm]
    | some found => simp [bind, Except.bind]

/-- **Columns make a table** if no name stands twice and they are equally long. -/
lemma ofColumns_eq_ok_iff : ofColumns columns = .ok t
    ↔ (columns.map Column.name).Nodup ∧ (fresh columns).Rectangular ∧ t = fresh columns := by
  have hfind : columns.find? (·.cells.size != (fresh columns).rowCount) = none
      ↔ (fresh columns).Rectangular := by
    simp [Rectangular, fresh]
  rw [← checkNames_eq_ok_iff, ← hfind, ofColumns]
  cases checkNames (columns.map Column.name) with
  | error x => simp [bind, Except.bind]
  | ok _ =>
    cases hlength : columns.find? (·.cells.size != (fresh columns).rowCount) with
    | none => simp [bind, Except.bind, hlength, pure, Except.pure, eq_comm]
    | some c => simp [bind, Except.bind, hlength]

/-! ## Rows and columns -/

/-- The columns have the cells of the rows: at a row they have what the row has at the column. -/
def Transposes (rows : List (List Cell)) (columns : List Column) : Prop :=
  ∀ i j : ℕ, (columns[j]?.bind fun c => c.cells[i]?) = rows[i]?.bind fun row => row[j]?

/-- **No cell is lost** when rows of one width are taken apart. -/
lemma transposes_columnsOf (h : ∀ row ∈ rows, row.length = names.length) :
    Transposes rows (columnsOf names rows) := by
  intro i j
  have hrow : ∀ row, rows[i]? = some row → row.length = names.length := fun row hi =>
    h row (List.mem_of_getElem? hi)
  rw [columnsOf, List.getElem?_mapIdx]
  cases hname : names[j]? with
  | none =>
    -- no row is so long
    rw [List.getElem?_eq_none_iff] at hname
    cases hi : rows[i]? with
    | none => rfl
    | some row => simp [hrow row hi, hname]
  | some name =>
    obtain ⟨hj, -⟩ := List.getElem?_eq_some_iff.1 hname
    cases hi : rows[i]? with
    | none => simp [hi]
    | some row => simp [hi, hrow row hi, hj]

/-- **Names and cells are all that there is** to a list of columns. -/
lemma Transposes.unique {columns' : List Column} (h : Transposes rows columns)
    (h' : Transposes rows columns')
    (hnames : columns.map Column.name = columns'.map Column.name) : columns = columns' := by
  have hlength : columns.length = columns'.length := by simpa using congrArg List.length hnames
  refine List.ext_getElem hlength fun j hj hj' => ?_
  have hname : columns[j].name = columns'[j].name := by
    simpa [hj, hj'] using congrArg (·[j]?) hnames
  have hcells : columns[j].cells = columns'[j].cells := by
    refine Array.ext_getElem? fun i => ?_
    simpa [hj, hj'] using (h i j).trans (h' i j).symm
  calc columns[j] = ⟨columns[j].name, columns[j].cells⟩ := rfl
    _ = columns'[j] := by rw [hname, hcells]

@[simp] lemma map_name_columnsOf : (columnsOf names rows).map Column.name = names := by
  refine List.ext_getElem? fun j => ?_
  rw [List.getElem?_map, columnsOf, List.getElem?_mapIdx]
  cases names[j]? <;> rfl

lemma columns_fresh : (fresh columns).columns = columns := rfl

lemma rowIds_fresh : (fresh columns).rowIds = Array.range (fresh columns).rowCount := by
  simp [fresh, rowCount]

/-- The rows are counted in the first column. -/
lemma rowCount_columnsOf : (fresh (columnsOf names rows)).rowCount
    = (if names = [] then [] else rows).length := by
  cases names <;> simp [fresh, rowCount, columnsOf]

lemma rectangular_columnsOf : (fresh (columnsOf names rows)).Rectangular := by
  intro c hc
  rw [columns_fresh, columnsOf, List.mem_mapIdx] at hc
  obtain ⟨j, hj, rfl⟩ := hc
  have hne : names ≠ [] := List.ne_nil_of_length_pos (by omega)
  simp [rowCount_columnsOf, hne]

/-- **What rows make, columns make too.** -/
lemma ofColumns_of_ofRows (h : ofRows names rows = .ok t) : ofColumns t.columns = .ok t := by
  obtain ⟨hnames, -, rfl⟩ := ofRows_eq_ok_iff.1 h
  rw [ofColumns_eq_ok_iff, columns_fresh, map_name_columnsOf]
  exact ⟨hnames, rectangular_columnsOf, rfl⟩

/-! ## Reading back -/

/-- Entries that are there one by one are there together. -/
lemma mapM_eq_some {α β : Type} {f : α → Option β} {xs : List α} :
    ∀ {ys : List β}, xs.length = ys.length → (∀ j : ℕ, xs[j]?.bind f = ys[j]?) →
      xs.mapM f = some ys := by
  induction xs with
  | nil =>
    intro ys hlength _
    rw [List.eq_nil_of_length_eq_zero hlength.symm]
    rfl
  | cons x rest ih =>
    intro ys hlength h
    cases ys with
    | nil => simp at hlength
    | cons y ys =>
      have hx : f x = some y := by simpa using h 0
      have hrest : rest.mapM f = some ys :=
        ih (by simpa using hlength) fun j => by simpa using h (j + 1)
      simp [List.mapM_cons, hx, hrest]

/-- A row is read as it was given. -/
lemma row?_of_transposes (h : Transposes rows t.columns)
    (hwidth : ∀ row ∈ rows, row.length = t.columns.length) (hcount : t.rowCount = rows.length)
    (i : ℕ) : t.row? i = rows[i]? := by
  rw [row?, hcount]
  split_ifs with hi
  · rw [List.getElem?_eq_getElem hi]
    refine mapM_eq_some (hwidth _ (List.getElem_mem hi)).symm fun j => ?_
    rw [h i j, List.getElem?_eq_getElem hi]
    rfl
  · rw [List.getElem?_eq_none (not_lt.1 hi)]

/-- A cell is read as it was given, under the first column of its name. -/
lemma cell?_of_transposes (h : Transposes rows t.columns) (i : ℕ) (name : String) :
    t.cell? i name
      = (t.columnNames.idxOf? name).bind fun j => rows[i]?.bind fun row => row[j]? := by
  have hcolumn : t.column? name = (t.columnNames.idxOf? name).bind (t.columns[·]?) := by
    rw [column?, List.find?_eq_bind_findIdx?_getElem?, columnNames, List.idxOf?, List.findIdx?_map]
    rfl
  rw [cell?, hcolumn]
  cases t.columnNames.idxOf? name with
  | none => rfl
  | some j => exact h i j

/-- The table has the given names, and under them the given rows. -/
structure Holds (t : Table) (names : List String) (rows : List (List Cell)) : Prop where
  columnNames : t.columnNames = names
  rowCount : t.rowCount = rows.length
  /-- the identity of a row is its place -/
  rowIds : t.rowIds = Array.range rows.length
  row? : ∀ i, t.row? i = rows[i]?
  cell? : ∀ i name, t.cell? i name
    = (names.idxOf? name).bind fun j => rows[i]?.bind fun row => row[j]?

/-- **A table holds what it was built from.**  Rows are refused if a name stands twice or one of
them has not one cell for each name, and only then.  The table has the names and the rows as they
were given, except that it has no rows without names.  The columns of these names that have the
cells of the rows are those of the table, and build it again. -/
theorem exists_ofRows_iff (names : List String) (rows : List (List Cell)) :
    ((∃ t, ofRows names rows = .ok t)
        ↔ names.Nodup ∧ ∀ row ∈ rows, row.length = names.length)
      ∧ ∀ t, ofRows names rows = .ok t →
        t.Holds names (if names = [] then [] else rows)
          ∧ Transposes rows t.columns
          ∧ ∀ columns : List Column, columns.map Column.name = names → Transposes rows columns →
            ofColumns columns = .ok t := by
  refine ⟨by simp [ofRows_eq_ok_iff], fun t ht => ?_⟩
  obtain ⟨-, hwidth, rfl⟩ := ofRows_eq_ok_iff.1 ht
  have hrows : Transposes rows (columnsOf names rows) := transposes_columnsOf hwidth
  have hkept : Transposes (if names = [] then [] else rows) (columnsOf names rows) := by
    split_ifs with hnames
    · simp [Transposes, hnames, columnsOf]
    · exact hrows
  have hnames : (fresh (columnsOf names rows)).columnNames = names := map_name_columnsOf
  refine ⟨⟨hnames, rowCount_columnsOf, ?_, ?_, fun i name => ?_⟩, hrows, fun columns hmap h => ?_⟩
  · rw [rowIds_fresh, rowCount_columnsOf]
  · refine row?_of_transposes hkept ?_ rowCount_columnsOf
    have hlength : (columnsOf names rows).length = names.length := by simp [columnsOf]
    intro row hrow
    rw [columns_fresh, hlength]
    exact hwidth row (by split_ifs at hrow <;> simp_all)
  · rw [cell?_of_transposes hkept, hnames]
  · rw [h.unique hrows (hmap.trans map_name_columnsOf.symm)]
    exact ofColumns_of_ofRows ht

/-- Two rows under two names, and the same cells as two columns. -/
theorem exists_ofRows_iff_pairs :
    ∃ t, ofRows ["k", "v"] [[.integer 1, .text "x"], [.integer 2, .null]] = .ok t
      ∧ t.Holds ["k", "v"] [[.integer 1, .text "x"], [.integer 2, .null]]
      ∧ t.rowIds = #[0, 1] ∧ t.row? 1 = some [.integer 2, .null]
      ∧ t.cell? 0 "v" = some (.text "x")
      ∧ ofColumns [⟨"k", #[.integer 1, .integer 2]⟩, ⟨"v", #[.text "x", .null]⟩] = .ok t := by
  obtain ⟨hiff, hbuilt⟩ :=
    exists_ofRows_iff ["k", "v"] [[.integer 1, .text "x"], [.integer 2, .null]]
  obtain ⟨t, ht⟩ := hiff.2 (by simp)
  obtain ⟨hholds, -, hcolumns⟩ := hbuilt t ht
  refine ⟨t, ht, hholds, hholds.rowIds, hholds.row? 1, hholds.cell? 0 "v", hcolumns _ rfl ?_⟩
  exact @transposes_columnsOf ["k", "v"] _ (by simp)

/-- **Rows without cells are lost.**  Two of them are two rows with one cell for each of no names,
and the table has none, although a table can have rows and no columns: a selection of no columns
keeps the rows. -/
theorem ofRows_without_names :
    ∃ t, ofRows [] [[], []] = .ok t ∧ t.rowCount = 0 ∧ t.row? 0 = none
      ∧ ∃ s s', ofRows ["k"] [[.null], [.null]] = .ok s ∧ s.project [] = .ok s'
        ∧ s'.columnNames = [] ∧ s'.rowCount = 2 ∧ s'.row? 0 = some [] :=
  ⟨_, rfl, rfl, rfl, _, _, rfl, rfl, rfl, rfl, rfl⟩

end LinkedTables.Table
