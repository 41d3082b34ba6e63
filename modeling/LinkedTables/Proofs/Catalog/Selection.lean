import Mathlib
import LinkedTables.Proofs.Catalog.Parsed
import LinkedTables.Proofs.Filter.Narrowing

/-!
# Filtering what has been selected

Rows can be taken from a table before it is filtered or after, with the same outcome: a filter on
some rows of its home table keeps those of them that it keeps of the whole table.  No row is kept or
dropped because of another row of the home table, although one frame holds the joined rows of all of
them.  In particular nothing is lost when a table that has been filtered is filtered again.

The home table is changed under an otherwise unchanged catalog (`Catalog.replaceTable`).
-/

namespace LinkedTables

namespace Catalog

variable {c : Catalog} {home : TableId}

/-- The catalog with another table in the place of a registered one. -/
def replaceTable (c : Catalog) (id : TableId) (t : Table) : Catalog :=
  { c with database := { c.database with tables := c.database.tables.setIfInBounds id t } }

lemma Closed.replaceTable (hc : c.Closed) (id : TableId) (t : Table) :
    (c.replaceTable id t).Closed := by
  refine ⟨?_, hc.schema, hc.names⟩
  rw [show (c.replaceTable id t).schema.size = c.schema.size from rfl, hc.size_eq]
  simp [Catalog.size, Catalog.replaceTable]

lemma narrowed_replaceTable {t : Table} {part : List ℕ} (ht : c.table? home = some t)
    (hsorted : part.Pairwise (· < ·)) (hlt : ∀ i ∈ part, i < t.rowCount) :
    c.database.Narrowed (c.replaceTable home (t.restrict part)).database home t part where
  schema := rfl
  whole := ht
  part := by
    obtain ⟨hhome, -⟩ := Array.getElem?_eq_some_iff.1 ht
    exact Array.getElem?_setIfInBounds_self_of_lt hhome
  other id hid := Array.getElem?_setIfInBounds_ne hid.symm
  sorted := hsorted
  lt_rowCount := hlt

/-- A filter on a part of its home table keeps the rows that it keeps of the whole table. -/
lemma Closed.exists_filterExpr_replaceTable (hc : c.Closed)
    (hlimit : c.settings.maxFrameRows = none) {e : Expr Reference} {kept : Table}
    (h : (c.filterExpr home e).result = .ok kept) :
    ∃ t, ∃ rows : List ℕ, c.table? home = some t ∧ rows.Pairwise (· < ·)
      ∧ (∀ i ∈ rows, i < t.rowCount) ∧ kept = t.restrict rows
      ∧ ∀ part : List ℕ, part.Pairwise (· < ·) → (∀ i ∈ part, i < t.rowCount) →
        ((c.replaceTable home (t.restrict part)).filterExpr home e).result
          = .ok (t.restrict (rows.filter (· ∈ part))) := by
  obtain ⟨f, p, hf, hp, hevaluate⟩ := filterExpr_eq_ok_iff.1 h
  obtain ⟨t, rows, ht, hrows, hmem, hanswer⟩ := hc.exists_evaluate hf hp
  rw [hlimit, hanswer.result] at hevaluate
  cases hevaluate
  refine ⟨t, rows, ht, hrows, fun i hi => ((hmem i).1 hi).1, rfl, ?_⟩
  intro part hsorted hlt
  have hnarrowed := narrowed_replaceTable ht hsorted hlt
  have hf' := hnarrowed.bindFilter hf
  obtain ⟨t', rows', ht', hrows', hmem', hanswer'⟩ :=
    (hc.replaceTable home _).exists_evaluate hf' hp
  obtain rfl : t.restrict part = t' := Option.some.inj (hnarrowed.part.symm.trans ht')
  have hgrown := (covers_of_plan hc.schema (Database.bindFilter_sound hf).2 hp).2.1.grown
  have hsame : rows'.filterMap (part[·]?) = rows.filter (· ∈ part) := by
    refine List.Pairwise.eq_of_mem_iff (Table.pairwise_filterMap_getElem? hsorted hrows')
      (hrows.filter _) fun i => ?_
    simp only [List.mem_filterMap, List.mem_filter, decide_eq_true_eq, hmem, hmem',
      Table.rowCount_restrict hlt]
    constructor
    · rintro ⟨j, ⟨-, hkeeps⟩, hj⟩
      have hi := List.mem_of_getElem? hj
      exact ⟨⟨hlt i hi, (hnarrowed.keeps_iff (fun _ => hgrown.target_ne_home) hj).1 hkeeps⟩, hi⟩
    · rintro ⟨⟨-, hkeeps⟩, hi⟩
      obtain ⟨j, hj⟩ := List.mem_iff_getElem?.1 hi
      have hlt' := (List.getElem?_eq_some_iff.1 hj).1
      exact ⟨j, ⟨hlt', (hnarrowed.keeps_iff (fun _ => hgrown.target_ne_home) hj).2 hkeeps⟩, hj⟩
  refine filterExpr_eq_ok_iff.2 ⟨f, p, hf', hp, ?_⟩
  rw [show (c.replaceTable home (t.restrict part)).settings = c.settings from rfl, hlimit,
    hanswer'.result, Table.restrict_restrict hsorted, hsame]

/-- **Selecting rows and filtering can be done in either order.**  When a filter has been answered,
the same filter is answered on every selection of rows of its home table, with the rows of the
answer that were selected; and the answer itself, filtered again, stays as it is. -/
theorem filter_of_select (hc : c.Reachable) (hlimit : c.settings.maxFrameRows = none)
    {text : String} {kept : Table} (h : (c.filter home text).result = .ok kept) :
    ∃ t, ∃ rows : List ℕ, c.table? home = some t ∧ rows.Pairwise (· < ·)
      ∧ (∀ i ∈ rows, i < t.rowCount) ∧ kept = t.restrict rows
      ∧ (∀ mask : List Bool, mask.length = t.rowCount → ∃ t', t.select mask = .ok t'
        ∧ ((c.replaceTable home t').filter home text).result
          = .ok (t.restrict (rows.filter fun i => mask[i]? = some true)))
      ∧ ((c.replaceTable home kept).filter home text).result = .ok kept := by
  obtain ⟨hlength, e, hparse, hanswer⟩ := filter_eq_ok_iff.1 h
  obtain ⟨t, rows, ht, hrows, hlt, rfl, hparts⟩ :=
    hc.closed.exists_filterExpr_replaceTable hlimit hanswer
  have hfilter : ∀ part : List ℕ, part.Pairwise (· < ·) → (∀ i ∈ part, i < t.rowCount) →
      ((c.replaceTable home (t.restrict part)).filter home text).result
        = .ok (t.restrict (rows.filter (· ∈ part))) := fun part hsorted hpart =>
    filter_eq_ok_iff.2 ⟨hlength, e, hparse, hparts part hsorted hpart⟩
  refine ⟨t, rows, ht, hrows, hlt, rfl, ?_, ?_⟩
  · intro mask hmask
    have hpart : ∀ i ∈ Table.markedRows mask, i < t.rowCount := by
      intro i hi
      rw [Table.mem_markedRows] at hi
      exact hmask ▸ (List.getElem?_eq_some_iff.1 hi).1
    refine ⟨_, Table.select_eq_restrict hmask, ?_⟩
    rw [hfilter _ (Table.pairwise_markedRows mask) hpart]
    simp only [Table.mem_markedRows]
  · have hself : rows.filter (· ∈ rows) = rows := by simp
    rw [hfilter rows hrows hlt, hself]

/-- The first row and the last one are kept, each on its own too. -/
theorem filter_of_select_partners :
    ∃ kept, partners.Reachable ∧ partners.settings.maxFrameRows = none
      ∧ (partners.filter 0 "~(y == 5)").result = .ok kept
      ∧ ∃ t, ∃ rows : List ℕ, partners.table? 0 = some t ∧ rows.Pairwise (· < ·)
        ∧ (∀ i ∈ rows, i < t.rowCount) ∧ kept = t.restrict rows
        ∧ (∀ mask : List Bool, mask.length = t.rowCount → ∃ t', t.select mask = .ok t'
          ∧ ((partners.replaceTable 0 t').filter 0 "~(y == 5)").result
            = .ok (t.restrict (rows.filter fun i => mask[i]? = some true)))
        ∧ ((partners.replaceTable 0 kept).filter 0 "~(y == 5)").result = .ok kept := by
  have hlimit : partners.settings.maxFrameRows = none := by cbv
  have hkept : (partners.filter 0 "~(y == 5)").result
      = .ok ⟨[⟨"k", #[.integer 1, .integer 3]⟩], #[0, 2]⟩ := by cbv
  exact ⟨_, reachable_partners, hlimit, hkept, filter_of_select reachable_partners hlimit hkept⟩

/-- Without the first row, only the last one is left. -/
example : ((partners.replaceTable 0 ⟨[⟨"k", #[.integer 2, .integer 3]⟩], #[1, 2]⟩).filter 0
    "~(y == 5)").result.map Table.rowIds = .ok #[2] := by
  cbv

end Catalog

end LinkedTables
