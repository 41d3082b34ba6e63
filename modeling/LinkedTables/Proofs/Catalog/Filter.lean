import Mathlib
import LinkedTables.Catalog
import LinkedTables.Proofs.Catalog.Reachable
import LinkedTables.Proofs.Filter.Binding
import LinkedTables.Proofs.Filter.Evaluation

/-!
# The meaning of a filter

In a catalog that calls lead to, a filter that can be planned never fails on the rows, if joined
rows are not limited: the tables of the plan are registered, its steps come in an order in which
they can be carried out, and every column of the filter belongs to a table that is joined.  What is
left of the home table are the rows that `Database.Keeps` speaks of.
-/

namespace LinkedTables

namespace Catalog

variable {c : Catalog} {home : TableId} {text : String}

/-! ## Preparation -/

lemma prepare_returns (c : Catalog) (home : TableId) (text : String) :
    (c.prepare home text).Returns (if c.settings.maxExpressionLength < text.utf8ByteSize then
        .error (.invalidInput (.tooLong text.utf8ByteSize c.settings.maxExpressionLength))
      else do
        let parsed ← (parseFilter text).mapError .malformed
        let bound ← (c.database.bindFilter home c.settings.unqualified parsed).result
        let plan ← c.schema.plan home bound
        pure (bound, plan)) := by
  simp only [prepare]
  split_ifs with hlong
  · exact Traced.returns_throw _
  · refine (Traced.returns_answer _).bind fun parsed => ?_
    refine (Database.bindFilter_returns _ parsed).self.bind fun bound => ?_
    refine (Traced.returns_answer _).bind fun plan => ?_
    exact Traced.Returns.after_emit _ (Traced.Returns.after_emit _ (Traced.returns_pure _))

/-- A filter is prepared exactly if it is not too long and can be read, bound and planned. -/
lemma prepare_eq_ok_iff {bound : BoundFilter} {plan : JoinPlan} :
    (c.prepare home text).result = .ok (bound, plan) ↔
      text.utf8ByteSize ≤ c.settings.maxExpressionLength ∧ ∃ e, parseFilter text = .ok e
        ∧ (c.database.bindFilter home c.settings.unqualified e).result = .ok bound
        ∧ c.schema.plan home bound = .ok plan := by
  rw [(prepare_returns c home text).result]
  constructor
  · intro h
    split_ifs at h with hlong
    obtain ⟨e, hparsed, h⟩ := eq_ok_of_bind h
    obtain ⟨bound', hbound, h⟩ := eq_ok_of_bind h
    obtain ⟨plan', hplan, h⟩ := eq_ok_of_bind h
    cases h
    refine ⟨not_lt.1 hlong, e, ?_, hbound, hplan⟩
    cases hparse : parseFilter text with
    | error failure => simp [hparse, Except.mapError] at hparsed
    | ok e' =>
      rw [hparse] at hparsed
      cases hparsed
      rfl
  · rintro ⟨hlength, e, hparse, hbound, hplan⟩
    rw [if_neg (not_lt.2 hlength), hparse]
    show (c.database.bindFilter home c.settings.unqualified e).result >>= _ = _
    rw [hbound]
    show (c.schema.plan home bound >>= _) = _
    rw [hplan]
    rfl

lemma explain_returns (c : Catalog) (home : TableId) (text : String) :
    (c.explain home text).Returns ((c.prepare home text).result >>= fun x => pure x.2) :=
  (prepare_returns c home text).self.bind fun x => Traced.returns_pure x.2

/-- An explained filter is one that is prepared. -/
lemma exists_prepare {plan : JoinPlan} (h : (c.explain home text).result = .ok plan) :
    ∃ bound, (c.prepare home text).result = .ok (bound, plan) := by
  rw [(explain_returns c home text).result] at h
  obtain ⟨⟨bound, plan'⟩, hprepare, h⟩ := eq_ok_of_bind h
  cases h
  exact ⟨bound, hprepare⟩

lemma explain_of_prepare {bound : BoundFilter} {plan : JoinPlan}
    (h : (c.prepare home text).result = .ok (bound, plan)) :
    (c.explain home text).result = .ok plan := by
  rw [(explain_returns c home text).result, h]
  rfl

/-! ## Tables of a plan -/

/-- The tables of a plan are registered. -/
lemma Closed.registered (hc : c.Closed) {t : Table} (ht : c.table? home = some t)
    {steps : List JoinStep} (hsteps : JoinPlan.Grown c.schema home steps) :
    ∀ id ∈ home :: steps.map JoinStep.target, ∃ t, c.table? id = some t := by
  intro id hid
  rcases List.mem_cons.1 hid with rfl | hid
  · exact ⟨t, ht⟩
  · obtain ⟨step, hstep, rfl⟩ := List.mem_map.1 hid
    have hlt : step.target < c.database.tables.size :=
      lt_of_lt_of_eq (hc.schema _ _ (hsteps.declared step hstep)).2.2 hc.size_eq
    exact ⟨c.database.tables[step.target], Array.getElem?_eq_getElem hlt⟩

/-- What has been bound and planned can be evaluated, and leaves the rows that are kept. -/
lemma Closed.exists_evaluate (hc : c.Closed) {rule : UnqualifiedRule} {e : Expr Reference}
    {bound : BoundFilter} {plan : JoinPlan}
    (hbound : (c.database.bindFilter home rule e).result = .ok bound)
    (hplanned : c.schema.plan home bound = .ok plan) :
    ∃ t, ∃ rows : List ℕ, c.table? home = some t
      ∧ rows.Pairwise (· < ·)
      ∧ (∀ i, i ∈ rows ↔ i < t.rowCount ∧ c.database.Keeps home plan.steps bound.expr i)
      ∧ (c.database.evaluate none plan bound.expr).Returns (.ok (t.restrict rows)) := by
  obtain ⟨⟨t, ht⟩, hsound⟩ := Database.bindFilter_sound hbound
  have hs : c.database.schema.Closed := hc.schema
  have hrunnable := runnable_of_plan hs hsound hplanned
  have howners : ∀ col ∈ bound.expr.columns, col.table ∈ plan.tables :=
    fun _ => owner_mem_tables hs hsound hplanned
  obtain ⟨rfl, hcovers, -, -⟩ := covers_of_plan hs hsound hplanned
  have ht' : c.table? plan.home = some t := Database.table_eq_ok_iff.1 ht
  have hregistered := hc.registered ht' hcovers.grown
  obtain ⟨rows, hrows, hmem, hevaluate⟩ :=
    Database.exists_evaluate hrunnable hregistered ht' howners
  exact ⟨t, rows, ht', hrows, hmem, hevaluate⟩

/-- What has been prepared can be evaluated. -/
lemma exists_evaluate_of_prepare (hc : c.Reachable) {bound : BoundFilter} {plan : JoinPlan}
    (hprepare : (c.prepare home text).result = .ok (bound, plan)) :
    ∃ t, ∃ rows : List ℕ, c.table? home = some t
      ∧ rows.Pairwise (· < ·)
      ∧ (∀ i, i ∈ rows ↔ i < t.rowCount ∧ c.database.Keeps home plan.steps bound.expr i)
      ∧ (c.database.evaluate none plan bound.expr).Returns (.ok (t.restrict rows)) := by
  obtain ⟨-, e, -, hbound, hplanned⟩ := prepare_eq_ok_iff.1 hprepare
  exact hc.closed.exists_evaluate hbound hplanned

/-- **A filter means what it says.**  Whenever its joins can be planned and joined rows are not
limited, filtering succeeds, and leaves exactly the rows of the home table that are kept. -/
theorem exists_filter (hc : c.Reachable) {plan : JoinPlan}
    (hplan : (c.explain home text).result = .ok plan) (hlimit : c.settings.maxFrameRows = none) :
    ∃ bound t, ∃ rows : List ℕ, (c.prepare home text).result = .ok (bound, plan)
      ∧ c.table? home = some t
      ∧ rows.Pairwise (· < ·)
      ∧ (∀ i, i ∈ rows ↔ i < t.rowCount ∧ c.database.Keeps home plan.steps bound.expr i)
      ∧ (c.filter home text).result = .ok (t.restrict rows) := by
  obtain ⟨bound, hprepare⟩ := exists_prepare hplan
  obtain ⟨t, rows, ht, hrows, hmem, hevaluate⟩ := exists_evaluate_of_prepare hc hprepare
  refine ⟨bound, t, rows, hprepare, ht, hrows, hmem, ?_⟩
  have hreturns : (c.filter home text).Returns (.ok (t.restrict rows)) := by
    have hself := (prepare_returns c home text).self
    rw [hprepare] at hself
    refine hself.bind_ok ?_
    rwa [hlimit]
  exact hreturns.result

/-! ## Rows with several partners, one, and none -/

/-- Three rows in `h`, of which the first has two partners in `o` and the last has none. -/
def partners : Catalog :=
  Catalog.empty .standard
    |>.withTable "h" ⟨[⟨"k", #[.integer 1, .integer 2, .integer 3]⟩], #[0, 1, 2]⟩
    |>.withTable "o" ⟨[⟨"k", #[.integer 1, .integer 1, .integer 2]⟩,
        ⟨"y", #[.integer 5, .integer 7, .integer 5]⟩], #[0, 1, 2]⟩
    |>.withRelation ⟨0, "o", 1, "k", "k"⟩

lemma reachable_partners : partners.Reachable :=
  .withRelation (.withTable (.withTable (.empty _) _ _) _ _) _

/-- A negation is about one joined row, and a missing table reads as null: the first row is kept
for its second partner, and the last one for having none. -/
theorem exists_filter_partners :
    ∃ plan, partners.Reachable
      ∧ (partners.explain 0 "~(y == 5)").result = .ok plan
      ∧ partners.settings.maxFrameRows = none
      ∧ ∃ bound t, ∃ rows : List ℕ,
        (partners.prepare 0 "~(y == 5)").result = .ok (bound, plan)
        ∧ partners.table? 0 = some t
        ∧ rows.Pairwise (· < ·)
        ∧ (∀ i, i ∈ rows ↔ i < t.rowCount ∧ partners.database.Keeps 0 plan.steps bound.expr i)
        ∧ (partners.filter 0 "~(y == 5)").result = .ok (t.restrict rows) := by
  have h : (partners.explain 0 "~(y == 5)").result
        = .ok ⟨0, [⟨0, "o", 1, "k", "k", 1⟩], #["h", "o"]⟩
      ∧ partners.settings.maxFrameRows = none :=
    ⟨by cbv, by cbv⟩
  exact ⟨_, reachable_partners, h.1, h.2, exists_filter reachable_partners h.1 h.2⟩

example : (partners.filter 0 "~(y == 5)").result.map Table.rowIds = .ok #[0, 2] := by
  cbv

end Catalog

end LinkedTables
