import Mathlib
import LinkedTables.Proofs.Catalog.Filter
import LinkedTables.Proofs.Filter.Widening
import LinkedTables.Proofs.Join.Limit

/-!
# Filters that have been read

The text of a filter is read before anything else is done with it, and what it is read as decides
how the filter goes on: `filterExpr` is the rest of `Catalog.filter`, behind the reading, and
`filter_eq` puts the two together.  Laws about the structure of filters are stated of `filterExpr`.

Nothing in it looks at the log, so its answer is that of its three stages in a row: the references
are bound, the joins planned, and the plan evaluated.
-/

namespace LinkedTables

namespace Catalog

variable {c : Catalog} {home : TableId} {e : Expr Reference}

/-- The rows of a home table that a filter keeps, once it has been read. -/
def filterExpr (c : Catalog) (home : TableId) (e : Expr Reference) : Traced Table := do
  let bound ← c.database.bindFilter home c.settings.unqualified e
  let plan ← answer (c.schema.plan home bound)
  c.database.evaluate c.settings.maxFrameRows plan bound.expr

lemma filterExpr_returns (c : Catalog) (home : TableId) (e : Expr Reference) :
    (c.filterExpr home e).Returns (do
      let bound ← (c.database.bindFilter home c.settings.unqualified e).result
      let plan ← c.schema.plan home bound
      (c.database.evaluate c.settings.maxFrameRows plan bound.expr).result) :=
  (Database.bindFilter_returns _ e).self.bind fun _ => (Traced.returns_answer _).bind fun _ =>
    (Database.evaluate_returns _ _ _ _).self

/-- **To filter is to read the text** and to go on with what it is read as. -/
theorem filter_eq (c : Catalog) (home : TableId) (text : String) :
    (c.filter home text).result = if c.settings.maxExpressionLength < text.utf8ByteSize then
        .error (.invalidInput (.tooLong text.utf8ByteSize c.settings.maxExpressionLength))
      else (parseFilter text).mapError .malformed >>= fun e => (c.filterExpr home e).result := by
  have hfilter : (c.filter home text).Returns _ :=
    (prepare_returns c home text).bind fun x =>
      (Database.evaluate_returns _ _ x.2 x.1.expr).self
  rw [hfilter.result]
  split_ifs
  · rfl
  · simp only [bind_assoc, pure_bind, (filterExpr_returns c home _).result]

/-- A text that is not too long is answered as what it is read as. -/
lemma filter_eq_filterExpr {text : String}
    (hlength : text.utf8ByteSize ≤ c.settings.maxExpressionLength)
    (hparse : parseFilter text = .ok e) :
    (c.filter home text).result = (c.filterExpr home e).result := by
  rw [filter_eq, if_neg (not_lt.2 hlength), hparse]
  rfl

/-- A filter is answered exactly if its text is not too long and is read as one that is. -/
lemma filter_eq_ok_iff {text : String} {t : Table} : (c.filter home text).result = .ok t ↔
    text.utf8ByteSize ≤ c.settings.maxExpressionLength
      ∧ ∃ e, parseFilter text = .ok e ∧ (c.filterExpr home e).result = .ok t := by
  rw [filter_eq]
  split_ifs with hlong
  · exact iff_of_false (by rintro ⟨⟩) fun h => absurd h.1 (not_le.2 hlong)
  · cases hparse : parseFilter text with
    | error x => exact iff_of_false (by rintro ⟨⟩) (by rintro ⟨-, e, ⟨⟩, -⟩)
    | ok e =>
      constructor
      · exact fun h => ⟨not_lt.1 hlong, e, rfl, h⟩
      · rintro ⟨-, e', heq, h⟩
        cases heq
        exact h

/-- A filter is answered exactly if each of its stages is. -/
lemma filterExpr_eq_ok_iff {t : Table} : (c.filterExpr home e).result = .ok t ↔
    ∃ bound plan, (c.database.bindFilter home c.settings.unqualified e).result = .ok bound
      ∧ c.schema.plan home bound = .ok plan
      ∧ (c.database.evaluate c.settings.maxFrameRows plan bound.expr).result = .ok t := by
  rw [(filterExpr_returns c home e).result]
  constructor
  · intro h
    obtain ⟨bound, hbound, h⟩ := eq_ok_of_bind h
    obtain ⟨plan, hplan, h⟩ := eq_ok_of_bind h
    exact ⟨bound, plan, hbound, hplan, h⟩
  · rintro ⟨bound, plan, hbound, hplan, h⟩
    rw [hbound]
    show (c.schema.plan home bound >>= _) = _
    rw [hplan]
    exact h

/-- A filter that cannot be bound is refused for it. -/
lemma filterExpr_eq_error {x : Failure}
    (h : (c.database.bindFilter home c.settings.unqualified e).result = .error x) :
    (c.filterExpr home e).result = .error x := by
  rw [(filterExpr_returns c home e).result, h]
  rfl

/-! ## The rows kept -/

/-- A row of the home table is kept by a filter, joined as the catalog plans it. -/
def Keeps (c : Catalog) (home : TableId) (e : Expr Reference) (i : ℕ) : Prop :=
  ∃ bound plan, (c.database.bindFilter home c.settings.unqualified e).result = .ok bound
    ∧ c.schema.plan home bound = .ok plan ∧ c.database.Keeps home plan.steps bound.expr i

/-- Filtering a table leaves the rows at the given positions, which are those that are kept. -/
structure Leaves (c : Catalog) (home : TableId) (e : Expr Reference) (t : Table)
    (rows : List ℕ) : Prop where
  sorted : rows.Pairwise (· < ·)
  mem_iff : ∀ i, i ∈ rows ↔ i < t.rowCount ∧ c.Keeps home e i
  answer : (c.filterExpr home e).result = .ok (t.restrict rows)

/-- In a catalog, a filter is planned in one way. -/
lemma keeps_iff {bound : BoundFilter} {plan : JoinPlan} {i : ℕ}
    (hbound : (c.database.bindFilter home c.settings.unqualified e).result = .ok bound)
    (hplan : c.schema.plan home bound = .ok plan) :
    c.Keeps home e i ↔ c.database.Keeps home plan.steps bound.expr i := by
  constructor
  · rintro ⟨bound', plan', hbound', hplan', hkeeps⟩
    rw [hbound] at hbound'
    cases hbound'
    rw [hplan] at hplan'
    cases hplan'
    exact hkeeps
  · exact fun hkeeps => ⟨bound, plan, hbound, hplan, hkeeps⟩

/-- Without a limit on joined rows, a filter that is bound and planned is answered. -/
lemma Closed.exists_leaves (hc : c.Closed) (hlimit : c.settings.maxFrameRows = none)
    {bound : BoundFilter} {plan : JoinPlan}
    (hbound : (c.database.bindFilter home c.settings.unqualified e).result = .ok bound)
    (hplan : c.schema.plan home bound = .ok plan) :
    ∃ t rows, c.table? home = some t ∧ c.Leaves home e t rows := by
  obtain ⟨t, rows, ht, hrows, hmem, hevaluate⟩ := hc.exists_evaluate hbound hplan
  refine ⟨t, rows, ht, hrows, ?_, ?_⟩
  · intro i
    rw [hmem, keeps_iff hbound hplan]
  · refine filterExpr_eq_ok_iff.2 ⟨bound, plan, hbound, hplan, ?_⟩
    rw [hlimit, hevaluate.result]

end Catalog

end LinkedTables
