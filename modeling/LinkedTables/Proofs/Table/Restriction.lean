import Mathlib
import LinkedTables.Table

/-!
# Parts of a table

A selection marks the rows that it keeps, and the proofs are about the positions of these rows:
`Table.restrict` is the table that has the rows at given positions only.

* **To select by marks is to restrict** the table to the rows marked (`Table.select_eq_restrict`).
* **A cell of a restricted table** is the one that stood at the position of its row
  (`Table.cell?_restrict`).  This holds for positions in order and for any table, because cells that
  are missing at the end of a column are missing at the end of its restriction too.
* **To restrict twice is to restrict once** (`Table.restrict_restrict`).
-/

namespace LinkedTables.Table

variable {t : Table} {rows : List ℕ}

/-! ## Tables without gaps -/

/-- Each column of a table has a cell in every row. -/
def Rectangular (t : Table) : Prop := ∀ c ∈ t.columns, c.cells.size = t.rowCount

/-! ## Marks -/

/-- The positions of the marks that are true, in order. -/
def markedRows (mask : List Bool) : List ℕ :=
  (List.range mask.length).filter fun i => mask[i]? = some true

lemma mem_markedRows {mask : List Bool} {i : ℕ} :
    i ∈ markedRows mask ↔ mask[i]? = some true := by
  simp only [markedRows, List.mem_filter, List.mem_range, decide_eq_true_eq, and_iff_right_iff_imp]
  intro h
  exact (List.getElem?_eq_some_iff.1 h).1

lemma pairwise_markedRows (mask : List Bool) : (markedRows mask).Pairwise (· < ·) :=
  List.pairwise_lt_range.filter _

lemma markedRows_cons (mark : Bool) (mask : List Bool) :
    markedRows (mark :: mask) = (if mark then [0] else []) ++ (markedRows mask).map Nat.succ := by
  simp only [markedRows, List.length_cons, List.range_succ_eq_map, List.filter_cons,
    List.getElem?_cons_zero, List.filter_map]
  cases mark <;> simp [Function.comp_def]

lemma marked_eq_filterMap {α : Type} {mask : List Bool} :
    ∀ {xs : List α}, marked mask xs = (markedRows mask).filterMap (xs[·]?) := by
  induction mask with
  | nil =>
    intro xs
    simp [marked, markedRows]
  | cons mark rest ih =>
    intro xs
    rw [markedRows_cons, List.filterMap_append, List.filterMap_map]
    cases xs with
    | nil => cases mark <;> simp [marked]
    | cons x xs =>
      have hrest : marked (mark :: rest) (x :: xs)
          = (if mark then [x] else []) ++ marked rest xs := by
        cases mark <;> simp [marked]
      rw [hrest, ih]
      cases mark <;> simp

/-! ## Restriction -/

/-- The rows at the given positions, with all columns and their identities. -/
def restrict (t : Table) (rows : List ℕ) : Table :=
  ⟨t.columns.map fun c => ⟨c.name, (rows.filterMap (c.cells[·]?)).toArray⟩,
    (rows.filterMap (t.rowIds[·]?)).toArray⟩

/-- **To select by marks is to restrict the table to the rows marked.** -/
lemma select_eq_restrict {t : Table} {mask : List Bool} (h : mask.length = t.rowCount) :
    t.select mask = .ok (t.restrict (markedRows mask)) := by
  simp only [select, if_pos h, restrict, marked_eq_filterMap, Array.getElem?_toList]

/-- Entries at rising positions: those that are missing come last, so the others stay in place. -/
lemma getElem?_filterMap_getElem? {α : Type} {xs : Array α} (h : rows.Pairwise (· < ·)) :
    ∀ j : ℕ, (rows.filterMap (xs[·]?))[j]? = rows[j]?.bind (xs[·]?) := by
  induction rows with
  | nil => simp
  | cons i rest ih =>
    obtain ⟨hrest, h⟩ := List.pairwise_cons.1 h
    intro j
    cases hi : xs[i]? with
    | some x =>
      rw [List.filterMap_cons_some hi]
      cases j with
      | zero => simp [hi]
      | succ j => simpa using ih h j
    | none =>
      have hnone : ∀ i' ∈ i :: rest, xs[i']? = none := by
        intro i' hi'
        rw [Array.getElem?_eq_none_iff] at hi ⊢
        rcases List.mem_cons.1 hi' with rfl | hi'
        · exact hi
        · exact hi.trans (hrest i' hi').le
      rw [List.filterMap_eq_nil_iff.2 hnone]
      cases hj : (i :: rest)[j]? with
      | none => rfl
      | some i' => exact (hnone i' (List.mem_of_getElem? hj)).symm

/-- Positions of positions are in order. -/
lemma pairwise_filterMap_getElem? {rows' : List ℕ} (h : rows.Pairwise (· < ·))
    (h' : rows'.Pairwise (· < ·)) : (rows'.filterMap (rows[·]?)).Pairwise (· < ·) := by
  refine h'.filterMap _ fun j j' hlt i hi i' hi' => ?_
  obtain ⟨hj, rfl⟩ := List.getElem?_eq_some_iff.1 hi
  obtain ⟨hj', rfl⟩ := List.getElem?_eq_some_iff.1 hi'
  exact List.pairwise_iff_getElem.1 h j j' hj hj' hlt

lemma column?_restrict (name : String) : (t.restrict rows).column? name
    = (t.column? name).map fun c => ⟨c.name, (rows.filterMap (c.cells[·]?)).toArray⟩ := by
  simp only [restrict, column?, List.find?_map]
  rfl

@[simp] lemma hasColumn_restrict (name : String) :
    (t.restrict rows).hasColumn name = t.hasColumn name := by
  simp [hasColumn, column?_restrict]

/-- A cell of a restricted table is one of the whole table. -/
lemma cell?_restrict (h : rows.Pairwise (· < ·)) (j : ℕ) (name : String) :
    (t.restrict rows).cell? j name = rows[j]?.bind fun i => t.cell? i name := by
  simp only [cell?, column?_restrict]
  cases t.column? name with
  | none => cases rows[j]? <;> rfl
  | some c =>
    show (rows.filterMap (c.cells[·]?)).toArray[j]? = _
    rw [List.getElem?_toArray, getElem?_filterMap_getElem? h]
    rfl

/-- No entry is missing at positions in range. -/
lemma length_filterMap_getElem? {α : Type} {xs : Array α} (h : ∀ i ∈ rows, i < xs.size) :
    (rows.filterMap (xs[·]?)).length = rows.length := by
  rw [List.length_filterMap_eq_countP, List.countP_eq_length]
  intro i hi
  simpa using h i hi

lemma rowCount_restrict (h : ∀ i ∈ rows, i < t.rowCount) :
    (t.restrict rows).rowCount = rows.length := length_filterMap_getElem? h

lemma Rectangular.restrict (ht : t.Rectangular) (h : ∀ i ∈ rows, i < t.rowCount) :
    (t.restrict rows).Rectangular := by
  intro c hc
  obtain ⟨c, hmem, rfl⟩ := List.mem_map.1 hc
  rw [rowCount_restrict h]
  exact length_filterMap_getElem? (ht c hmem ▸ h)

/-- **To restrict twice is to restrict once.** -/
lemma restrict_restrict (h : rows.Pairwise (· < ·)) (rows' : List ℕ) :
    (t.restrict rows).restrict rows' = t.restrict (rows'.filterMap (rows[·]?)) := by
  simp only [restrict, List.map_map, List.filterMap_filterMap, List.getElem?_toArray,
    getElem?_filterMap_getElem? h, Function.comp_def]

end LinkedTables.Table
