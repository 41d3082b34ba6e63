import Mathlib
import LinkedTables.Proofs.Catalog.Filter
import LinkedTables.Proofs.Join.Limit
import LinkedTables.Proofs.Join.Refusals

/-!
# Explaining a filter and running it

To explain a filter is to prepare it, and to run it is to prepare it and evaluate the plan.  Both
therefore fail alike where the preparation does.  Behind it only the limit on joined rows is left to
fail on, since what has been prepared can be evaluated, whatever the rows are.

`Failure.OfPreparation` names the failures that are left for the preparation: that of a table which
cannot be reached is not among them.
-/

namespace LinkedTables

/-- The failures of a filter on a home table before any row is looked at. -/
def Failure.OfPreparation (home : TableId) : Failure → Prop
  | malformed _ | invalidInput _ => True
  | unknownTable id => id = home
  | x => x.OfReference

lemma Failure.OfReference.ofPreparation {home : TableId} {x : Failure} (h : x.OfReference) :
    x.OfPreparation home := by
  cases x with
  | unknownColumn | unknownRelation | ambiguousColumn => trivial
  | _ => exact h.elim

namespace Catalog

variable {c : Catalog} {home : TableId} {text : String} {x : Failure}

/-! ## Where a filter fails -/

/-- **Why a filter is refused** before any row is looked at. -/
theorem prepare_error (hc : c.Reachable) (h : (c.prepare home text).result = .error x) :
    x.OfPreparation home := by
  rw [(prepare_returns c home text).result] at h
  split_ifs at h
  · cases h
    trivial
  rcases eq_error_of_bind h with h | ⟨e, -, h⟩
  · cases hparse : parseFilter text with
    | error error =>
      rw [hparse] at h
      cases h
      trivial
    | ok e =>
      rw [hparse] at h
      cases h
  rcases eq_error_of_bind h with h | ⟨bound, hbound, h⟩
  · rcases Database.bindFilter_error h with rfl | hreference
    · exact rfl
    · exact hreference.ofPreparation
  rcases eq_error_of_bind h with h | ⟨plan, -, h⟩
  · have hs : c.database.schema.Closed := hc.closed.schema
    obtain ⟨fault, -, rfl⟩ := conflict_of_plan_error hs (Database.bindFilter_sound hbound).2 h
    trivial
  · cases h

/-- Explaining fails only where the preparation does. -/
lemma prepare_eq_error (h : (c.explain home text).result = .error x) :
    (c.prepare home text).result = .error x := by
  rw [(explain_returns c home text).result] at h
  rcases eq_error_of_bind h with h | ⟨a, -, h⟩
  · exact h
  · cases h

/-- Filtering fails where the preparation does. -/
lemma filter_eq_error (h : (c.prepare home text).result = .error x) :
    (c.filter home text).result = .error x := by
  have hself := (prepare_returns c home text).self
  rw [h] at hself
  exact (hself.bind_error _).result

/-- Behind a preparation that succeeds, only too many joined rows are left to fail on. -/
lemma filter_of_prepare (hc : c.Reachable) {bound : BoundFilter} {plan : JoinPlan}
    (h : (c.prepare home text).result = .ok (bound, plan)) :
    (∃ t, (c.filter home text).result = .ok t) ∨ ∃ rows limit,
      c.settings.maxFrameRows = some limit ∧ limit < rows
        ∧ (c.filter home text).result = .error (.frameTooLarge rows limit) := by
  have hself := (prepare_returns c home text).self
  rw [h] at hself
  obtain ⟨t, rows, -, -, -, hevaluate⟩ := exists_evaluate_of_prepare hc h
  obtain ⟨r, hnone, hlimit⟩ :=
    c.database.limits_evaluate c.settings.maxFrameRows plan bound.expr
  -- without a limit the evaluation has one answer
  rw [← hnone.result, hevaluate.result] at hlimit
  rcases hlimit with hanswer | ⟨rows, limit, hsome, hlt, hstop⟩
  · exact Or.inl ⟨_, (hself.bind_ok hanswer).result⟩
  · exact Or.inr ⟨rows, limit, hsome, hlt, (hself.bind_ok hstop).result⟩

/-- **Explaining a filter tells how running it ends**: with the same failure, or else with an answer
unless the joined rows are limited and too many.  That a table cannot be reached is never the
failure of either. -/
theorem filter_agrees_with_explain (hc : c.Reachable) (home : TableId) (text : String) :
    (∀ x, (c.explain home text).result = .error x → (c.filter home text).result = .error x)
      ∧ (∀ p, (c.explain home text).result = .ok p →
        (∃ t, (c.filter home text).result = .ok t) ∨ ∃ rows limit,
          c.settings.maxFrameRows = some limit ∧ limit < rows
            ∧ (c.filter home text).result = .error (.frameTooLarge rows limit))
      ∧ (c.settings.maxFrameRows = none → ∀ p, (c.explain home text).result = .ok p →
        ∃ t, (c.filter home text).result = .ok t)
      ∧ ∀ table, (c.explain home text).result ≠ .error (.unreachableTable table)
        ∧ (c.filter home text).result ≠ .error (.unreachableTable table) := by
  have herror : ∀ x, (c.explain home text).result = .error x →
      (c.filter home text).result = .error x := fun x hx => filter_eq_error (prepare_eq_error hx)
  have hok : ∀ p, (c.explain home text).result = .ok p →
      (∃ t, (c.filter home text).result = .ok t) ∨ ∃ rows limit,
        c.settings.maxFrameRows = some limit ∧ limit < rows
          ∧ (c.filter home text).result = .error (.frameTooLarge rows limit) := by
    intro p hp
    obtain ⟨bound, hprepare⟩ := exists_prepare hp
    exact filter_of_prepare hc hprepare
  have hreached : ∀ table, (c.explain home text).result ≠ .error (.unreachableTable table) := by
    intro table h
    exact prepare_error hc (prepare_eq_error h)
  refine ⟨herror, hok, ?_, fun table => ⟨hreached table, fun hfilter => ?_⟩⟩
  · intro hnone p hp
    rcases hok p hp with hanswer | ⟨rows, limit, hsome, -, -⟩
    · exact hanswer
    · rw [hnone] at hsome
      cases hsome
  · cases hexplain : (c.explain home text).result with
    | error x =>
      have hsame := herror x hexplain
      rw [hfilter] at hsame
      cases hsame
      exact hreached table hexplain
    | ok p =>
      rcases hok p hexplain with ⟨t, ht⟩ | ⟨rows, limit, -, -, hstop⟩
      · rw [hfilter] at ht
        cases ht
      · rw [hfilter] at hstop
        cases hstop

/-- The tables of `partners`, with three joined rows at most. -/
def limited : Catalog := partners.withSettings ⟨1048576, some 3, .preferHome⟩

/-- Four joined rows are one too many for a filter that can be explained, and a column that no table
has is the failure of both calls. -/
theorem filter_agrees_with_explain_limited :
    ∃ p, limited.Reachable ∧ (limited.explain 0 "~(y == 5)").result = .ok p
      ∧ ((∃ t, (limited.filter 0 "~(y == 5)").result = .ok t) ∨ ∃ rows limit,
        limited.settings.maxFrameRows = some limit ∧ limit < rows
          ∧ (limited.filter 0 "~(y == 5)").result = .error (.frameTooLarge rows limit))
      ∧ (limited.explain 0 "z == 5").result = .error (.unknownColumn "z" ["h", "o"])
      ∧ (limited.filter 0 "z == 5").result = .error (.unknownColumn "z" ["h", "o"]) := by
  have hreachable : limited.Reachable := .withSettings _ reachable_partners
  have h : (limited.explain 0 "~(y == 5)").result
        = .ok ⟨0, [⟨0, "o", 1, "k", "k", 1⟩], #["h", "o"]⟩
      ∧ (limited.explain 0 "z == 5").result = .error (.unknownColumn "z" ["h", "o"]) :=
    ⟨by cbv, by cbv⟩
  exact ⟨_, hreachable, h.1, (filter_agrees_with_explain hreachable 0 "~(y == 5)").2.1 _ h.1,
    h.2, (filter_agrees_with_explain hreachable 0 "z == 5").1 _ h.2⟩

example : (limited.filter 0 "~(y == 5)").result = .error (.frameTooLarge 4 3) := by
  cbv

end Catalog

end LinkedTables
