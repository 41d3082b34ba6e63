import Mathlib
import LinkedTables.Proofs.Join.Enumeration

/-!
# Where a limit on joined rows stops a plan

`Database.buildFrame_limit_iff` says when a frame is built under a limit.  Here is what happens when
it is not, and nothing of it is told by the size of the whole frame alone.

* **Which join is stopped.**  Up to a join that fails all others have succeeded, and under a limit
  they have done so only with no more rows than it.  So the join that fails is the first one that
  comes to more rows (`Database.StopsAt`).
* **With how many rows.**  The limit is looked at after each row of the frame there was, behind all
  that this row becomes.  So the number that the failure names can be any number above the limit, up
  to that of the rows which the join comes to (`Frame.extendRows_error`).

Anything else that fails does so without a limit as well (`Frame.join_error`), and does not arise
for the plans of a consistent database (`exists_buildFrame_of_plan`).
-/

namespace LinkedTables

/-! ## One join -/

namespace Frame

variable {db : Database} {limit : Option ℕ} {f : Frame} {step : JoinStep}

/-- The rows made when a limit is exceeded are more than the limit, and some of all that there
would be. -/
lemma extendRows_error {matching : FrameRow → List ℕ} {rows : List FrameRow} {total most : ℕ} :
    ∀ {done : List FrameRow},
      extendRows limit matching done done.length rows = .error (total, most) →
      limit = some most ∧ most < total
        ∧ total ≤ done.length + (rows.flatMap fun row => extendRow row (matching row)).length := by
  induction rows with
  | nil => exact fun h => nomatch h
  | cons row rest ih =>
    intro done h
    have hlength : done.length + (extendRow row (matching row)).length
        = ((extendRow row (matching row)).reverse ++ done).length := by
      simp [Nat.add_comm]
    rw [List.flatMap_cons, List.length_append]
    simp only [extendRows] at h
    split at h
    · rename_i hmost
      cases h
      obtain ⟨hlimit, hlt⟩ := Option.filter_eq_some_iff.1 hmost
      exact ⟨hlimit, by simpa using hlt, by omega⟩
    · rw [hlength] at h
      obtain ⟨hlimit, hlt, hle⟩ := ih h
      exact ⟨hlimit, hlt, by omega⟩

/-- **A join that fails** does so without a limit as well, or it comes to more rows than the
limit. -/
lemma join_error {x : Failure} (h : (f.join db limit step).result = .error x) :
    (f.join db none step).result = .error x
      ∨ ∃ rows most full, limit = some most ∧ x = .frameTooLarge rows most
        ∧ (f.join db none step).result = .ok full ∧ most < rows ∧ rows ≤ full.size := by
  rw [(join_returns db limit f step).result] at h
  rcases eq_error_of_bind h with h | ⟨left, hleft, h⟩
  · rw [(join_returns db none f step).result, h]
    exact Or.inl rfl
  rcases eq_error_of_bind h with h | ⟨right, hright, h⟩
  · rw [(join_returns db none f step).result, hleft, h]
    exact Or.inl rfl
  cases hslot : f.slot? step.source with
  | none =>
    rw [hslot] at h
    rw [(join_returns db none f step).result, hleft, hright, hslot]
    exact Or.inl h
  | some slot =>
    simp only [hslot] at h
    split at h
    · rename_i rows most hrows
      cases h
      obtain ⟨hlimit, hlt, hle⟩ := extendRows_error hrows
      have hfull : (f.join db none step).result = .ok ⟨f.tables ++ [step.target],
          (f.rows.toList.flatMap fun row =>
            extendRow row (indexed left right slot step row)).toArray⟩ :=
        join_eq_ok_iff.2 ⟨by simp, left, right, slot, hleft, hright, hslot, rfl⟩
      exact Or.inr ⟨rows, most, _, hlimit, rfl, hfull, hlt, by simpa [Frame.size] using hle⟩
    · cases h

end Frame

/-! ## A whole plan -/

/-- What a plan does in its first steps. -/
def JoinPlan.take (p : JoinPlan) (k : ℕ) : JoinPlan := { p with steps := p.steps.take k }

namespace Database

variable {db : Database} {limit : Option ℕ} {p : JoinPlan} {f : Frame} {most : ℕ}

/-- A limit stops a plan at its step `k`, which is the first one to come to more rows than the
limit. -/
structure StopsAt (db : Database) (p : JoinPlan) (most rows k : ℕ) : Prop where
  lt : k < p.steps.length
  before : ∃ f, (db.buildFrame (some most) (p.take k)).result = .ok f
  fails : (db.buildFrame (some most) (p.take (k + 1))).result = .error (.frameTooLarge rows most)
  within : ∀ j < k, ∃ f, (db.buildFrame none (p.take (j + 1))).result = .ok f ∧ f.size ≤ most
  /-- the rows named are more than the limit, and no more than the step would have come to -/
  exceeds : ∃ f, (db.buildFrame none (p.take (k + 1))).result = .ok f ∧ most < rows ∧ rows ≤ f.size

/-- A plan does its first steps, and then the others. -/
lemma buildFrame_take (db : Database) (limit : Option ℕ) (p : JoinPlan) (k : ℕ) :
    (db.buildFrame limit p).result = (db.buildFrame limit (p.take k)).result >>=
      (p.steps.drop k).foldlM fun f t => (f.join db limit t).result := by
  rw [(db.buildFrame_returns limit p).result, (db.buildFrame_returns limit (p.take k)).result,
    bind_assoc]
  refine congrArg (db.table p.home >>= ·) (funext fun home => ?_)
  rw [← List.foldlM_append]
  exact congrArg (List.foldlM _ _) (List.take_append_drop k p.steps).symm

/-- One step more. -/
lemma buildFrame_take_succ (limit : Option ℕ) {k : ℕ} (hk : k < p.steps.length) :
    (db.buildFrame limit (p.take (k + 1))).result = (db.buildFrame limit (p.take k)).result >>=
      fun f => (f.join db limit p.steps[k]).result := by
  have htake : (p.take (k + 1)).take k = p.take k := by simp [JoinPlan.take, List.take_take]
  have hdrop : (p.take (k + 1)).steps.drop k = [p.steps[k]] := by
    simp only [JoinPlan.take, List.drop_take, List.drop_eq_getElem_cons hk, Nat.add_sub_cancel_left,
      List.take_succ_cons, List.take_zero]
  rw [buildFrame_take db limit (p.take (k + 1)) k, htake, hdrop]
  simp

/-- The first steps of a plan succeed if all of them do. -/
lemma exists_buildFrame_take (h : (db.buildFrame limit p).result = .ok f) (k : ℕ) :
    ∃ g, (db.buildFrame limit (p.take k)).result = .ok g := by
  rw [buildFrame_take db limit p k] at h
  obtain ⟨g, hg, -⟩ := eq_ok_of_bind h
  exact ⟨g, hg⟩

/-- A frame is not built because the home table is not there, or because of one of the joins. -/
lemma exists_of_buildFrame_error {x : Failure} (h : (db.buildFrame limit p).result = .error x) :
    db.table p.home = .error x ∨ ∃ k, ∃ hk : k < p.steps.length, ∃ g,
      (db.buildFrame limit (p.take k)).result = .ok g
        ∧ (g.join db limit p.steps[k]).result = .error x := by
  rw [(db.buildFrame_returns limit p).result] at h
  rcases eq_error_of_bind h with h | ⟨home, hhome, h⟩
  · exact Or.inl h
  · obtain ⟨before, t, after, hsteps, g, hbefore, hfails⟩ := exists_append_of_foldlM_error h
    have htake : p.steps.take before.length = before := by simp [hsteps]
    refine Or.inr ⟨before.length, by simp [hsteps], g, ?_, by simpa [hsteps] using hfails⟩
    rw [(db.buildFrame_returns limit (p.take before.length)).result]
    simp only [JoinPlan.take, htake]
    rw [hhome]
    exact hbefore

/-- **A frame that is not built under a limit** is not built without one either, or the limit stops
the plan at the first step that comes to more rows. -/
theorem buildFrame_error {x : Failure} (h : (db.buildFrame (some most) p).result = .error x) :
    (db.buildFrame none p).result = .error x
      ∨ ∃ rows k, x = .frameTooLarge rows most ∧ db.StopsAt p most rows k := by
  rcases exists_of_buildFrame_error h with hhome | ⟨k, hk, g, hg, hfails⟩
  · rw [(db.buildFrame_returns none p).result, hhome]
    exact Or.inl rfl
  have hfull := (buildFrame_limit_iff.1 hg).1
  rcases Frame.join_error hfails with hnone | ⟨rows, most', full, hmost, rfl, hjoin, hlt, hle⟩
  · refine Or.inl ?_
    rw [buildFrame_take db none p (k + 1), buildFrame_take_succ none hk, hfull]
    show ((g.join db none p.steps[k]).result >>= _) = _
    rw [hnone]
    rfl
  · cases hmost
    refine Or.inr ⟨rows, k, rfl, hk, ⟨g, hg⟩, ?_, ?_, full, ?_, hlt, hle⟩
    · rw [buildFrame_take_succ _ hk, hg]
      exact hfails
    · -- the steps before it have succeeded under the limit
      intro j hj
      obtain ⟨f, hf⟩ := exists_buildFrame_take hg (j + 1)
      have htake : (p.take k).take (j + 1) = p.take (j + 1) := by
        simp [JoinPlan.take, List.take_take, Nat.succ_le_of_lt hj]
      rw [htake] at hf
      obtain ⟨hnone, hle⟩ := buildFrame_limit_iff.1 hf
      refine ⟨f, hnone, hle ?_ most rfl⟩
      rw [← List.length_pos_iff]
      simp [JoinPlan.take]
      omega
    · rw [buildFrame_take_succ _ hk, hfull]
      exact hjoin

end Database

/-- **A limit on joined rows** lets a plan through as it is if it joins nothing or does not come to
more rows, and otherwise stops it at the first step that does.  The first part says that without a
limit there is a frame to compare with, for filters with explicit paths that start at the home
table, as those of a bound filter do. -/
theorem limit_of_plan {db : Database} {home : TableId} {f : BoundFilter} {p : JoinPlan}
    (hdb : db.Consistent) (hp : db.schema.plan home f = .ok p) (most : ℕ) :
    (home < db.tables.size → f.Rooted db.schema home →
        ∃ full, (db.buildFrame none p).result = .ok full)
      ∧ (∀ frame, (db.buildFrame (some most) p).result = .ok frame ↔
        (db.buildFrame none p).result = .ok frame ∧ (p.steps = [] ∨ frame.size ≤ most))
      ∧ ∀ x, (db.buildFrame (some most) p).result = .error x →
        (db.buildFrame none p).result = .error x
          ∨ ∃ rows k, x = .frameTooLarge rows most ∧ db.StopsAt p most rows k := by
  refine ⟨exists_buildFrame_of_plan hdb hp, fun frame => ?_, fun x => Database.buildFrame_error⟩
  rw [Database.buildFrame_limit_iff, or_iff_not_imp_left]
  simp

/-- In the chain the first join comes to four rows and the second one to six, of which the fifth is
made when the limit is looked at. -/
theorem limit_of_plan_chain :
    ∃ f p full, chain.database.Consistent ∧ chain.schema.plan 0 f = .ok p
      ∧ (chain.database.buildFrame none p).result = .ok full ∧ full.size = 6
      ∧ (∀ frame, (chain.database.buildFrame (some 6) p).result = .ok frame ↔
        (chain.database.buildFrame none p).result = .ok frame ∧ (p.steps = [] ∨ frame.size ≤ 6))
      ∧ (chain.database.buildFrame (some 4) p).result = .error (.frameTooLarge 5 4)
      ∧ ∃ k, chain.database.StopsAt p 4 5 k := by
  have h : ((chain.database.buildFrame none chainPlan).result.map Frame.size) = .ok 6
      ∧ (chain.database.buildFrame (some 4) chainPlan).result = .error (.frameTooLarge 5 4) :=
    ⟨by cbv, by cbv⟩
  obtain ⟨hsize, hfails⟩ := h
  obtain ⟨hbound, hplan, hhome⟩ := plan_chain
  have hconsistent := reachable_chain.consistent_database
  obtain ⟨hbuilt, hexact, -⟩ := limit_of_plan hconsistent hplan 6
  obtain ⟨full, hfull⟩ := hbuilt hhome (Database.rooted_of_bindFilter hbound)
  rw [hfull] at hsize
  refine ⟨_, _, full, hconsistent, hplan, hfull, Except.ok.inj hsize, hexact, hfails, ?_⟩
  rcases (limit_of_plan hconsistent hplan 4).2.2 _ hfails with hnone | ⟨rows, k, hrows, hstops⟩
  · rw [hfull] at hnone
    cases hnone
  · cases hrows
    exact ⟨k, hstops⟩

end LinkedTables
