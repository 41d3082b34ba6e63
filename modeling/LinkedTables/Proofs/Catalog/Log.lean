import Mathlib
import LinkedTables.Proofs.Catalog.Agreement
import LinkedTables.Proofs.Join.Enumeration
import LinkedTables.Proofs.Logged
import LinkedTables.Proofs.Table.Derivation

/-!
# The log of a filter

What a filter logs is what it does.  While it is bound it logs the owners that it has searched for;
then its plan, and that it is prepared; then each join that it carries out; and in the end that it
was evaluated, or that a limit was in the way.

The numbers in these events are related to each other and to the result, because each is logged
where it is known and nothing happens to it on the way.

* **Joins** (`Frame.exists_logs_joins`).  A join logs the size of its frame.  No join loses a row,
  so these numbers do not fall, and the first is at least the number of rows of the home table.  A
  join that is cut off logs the limit that it answers, and is the last one.
* **The end** (`Database.logs_evaluate_ok`, `Database.logs_evaluate_error`).  The frame that is
  evaluated is the one behind the last join, and a selection has as many rows as there are marks.
-/

namespace LinkedTables

open Traced

/-! ## Joins -/

namespace Frame

variable {db : Database} {limit : Option ℕ}

/-- What a join logs, by its answer: how many rows there are, or which limit they exceed. -/
def joinEvents (step : JoinStep) : Except Failure Frame → List Event
  | .ok f => [.stepJoined step f.size]
  | .error (.frameTooLarge _ limit) => [.frameOverLimit step.relation limit]
  | .error _ => []

lemma exists_logs_join (db : Database) (limit : Option ℕ) (f : Frame) (step : JoinStep) :
    ∃ r, (f.join db limit step).Logs r (joinEvents step r) := by
  simp only [join, Database.table]
  cases hleft : db.tables[step.source]? with
  | none => exact ⟨_, (logs_answer _).bind_error _⟩
  | some left =>
    cases hright : db.tables[step.target]? with
    | none => exact ⟨_, (logs_answer _).bind_ok ((logs_answer _).bind_error _)⟩
    | some right =>
      suffices h : ∃ r, Traced.Logs _ r (joinEvents step r) from
        h.imp fun r hr => (logs_answer _).bind_ok ((logs_answer _).bind_ok hr)
      cases f.slot? step.source with
      | none => exact ⟨_, logs_throw _⟩
      | some slot =>
        dsimp only
        cases extendRows limit (indexed left right slot step) [] 0 f.rows.toList with
        | error x =>
          obtain ⟨rows, most⟩ := x
          exact ⟨.error (.frameTooLarge rows most), (logs_emit _).bind_ok (logs_throw _)⟩
        | ok rows =>
          exact ⟨.ok ⟨f.tables ++ [step.target], rows.toArray⟩,
            (logs_emit (.stepJoined step rows.length)).bind_ok (logs_pure _)⟩

/-- The log of joins that begin with `size` rows: `counts` are the row counts of those that were
carried out, and `last` is what was logged behind them. -/
structure JoinsLog (steps : List JoinStep) (size : ℕ) (r : Except Failure Frame)
    (counts : List ℕ) (last : List Event) : Prop where
  grows : (size :: counts).Pairwise (· ≤ ·)
  done : ∀ f, r = .ok f →
    counts.length = steps.length ∧ f.size = counts.getLastD size ∧ last = []
  stopped : ∀ rows most, r = .error (.frameTooLarge rows most) →
    ∃ h : counts.length < steps.length,
      last = [.frameOverLimit (steps[counts.length]).relation most]

/-- No row is lost, so the row counts of a frame and of those behind it do not fall. -/
lemma JoinsLog.cons {f f' : Frame} {step : JoinStep} {steps : List JoinStep}
    {r : Except Failure Frame} {counts : List ℕ} {last : List Event}
    (hjoin : (f.join db limit step).result = .ok f') (h : JoinsLog steps f'.size r counts last) :
    JoinsLog (step :: steps) f.size r (f'.size :: counts) last where
  grows := by
    have hsize := size_le_of_join hjoin
    refine .cons (fun n hn => ?_) h.grows
    rcases List.mem_cons.1 hn with rfl | hn
    · exact hsize
    · exact hsize.trans ((List.pairwise_cons.1 h.grows).1 n hn)
  done := by
    intro f'' hr
    obtain ⟨hlength, hlast, hnone⟩ := h.done f'' hr
    exact ⟨by simp [hlength], by rw [hlast, List.getLastD_cons], hnone⟩
  stopped := by
    intro rows most hr
    obtain ⟨hlt, hlast⟩ := h.stopped rows most hr
    exact ⟨by simpa using hlt, hlast⟩

/-- **What joins log**: one event for each that is carried out, and the limit if one is exceeded. -/
theorem exists_logs_joins (db : Database) (limit : Option ℕ) (steps : List JoinStep) :
    ∀ f : Frame, ∃ r counts last, (steps.foldlM (Frame.join db limit) f).Logs r
        (List.zipWith .stepJoined steps counts ++ last) ∧ JoinsLog steps f.size r counts last := by
  induction steps with
  | nil =>
    intro f
    refine ⟨.ok f, [], [], logs_pure f, by simp, ?_, by simp⟩
    rintro f' ⟨⟩
    exact ⟨rfl, rfl, rfl⟩
  | cons step steps ih =>
    intro f
    rw [List.foldlM_cons]
    obtain ⟨r, hjoin⟩ := exists_logs_join db limit f step
    cases r with
    | error x =>
      refine ⟨.error x, [], joinEvents step (.error x), hjoin.bind_error _, by simp, by simp, ?_⟩
      rintro rows most ⟨⟩
      exact ⟨by simp, rfl⟩
    | ok f' =>
      obtain ⟨r, counts, last, hrest, hlog⟩ := ih f'
      exact ⟨r, f'.size :: counts, last, hjoin.bind_ok hrest, hlog.cons hjoin.result⟩

end Frame

/-! ## Evaluation -/

namespace Database

variable {db : Database} {limit : Option ℕ} {p : JoinPlan} {e : Expr BoundColumn} {home : Table}

lemma size_ofHome (id : TableId) (n : ℕ) : (Frame.ofHome id n).size = n := by
  simp [Frame.ofHome, Frame.size]

lemma exists_logs_buildFrame (limit : Option ℕ) (hhome : db.table p.home = .ok home) :
    ∃ r counts last,
      (db.buildFrame limit p).Logs r (List.zipWith .stepJoined p.steps counts ++ last)
      ∧ Frame.JoinsLog p.steps home.rowCount r counts last := by
  obtain ⟨r, counts, last, hjoins, hlog⟩ :=
    Frame.exists_logs_joins db limit p.steps (.ofHome p.home home.rowCount)
  rw [size_ofHome] at hlog
  refine ⟨r, counts, last, ?_, hlog⟩
  unfold buildFrame
  rw [hhome]
  exact (logs_answer _).bind_ok hjoins

/-- A selection has as many rows as marks are true. -/
lemma rowCount_select {t t' : Table} {mask : List Bool} (h : t.select mask = .ok t') :
    t'.rowCount = mask.count true := by
  obtain ⟨hlength, rfl⟩ := Table.select_eq_ok_iff.1 h
  rw [Table.rowCount_restrict (Table.lt_rowCount_of_mem_markedRows hlength),
    Table.length_markedRows]

/-- **What an evaluation logs if it succeeds.** -/
theorem logs_evaluate_ok (hhome : db.table p.home = .ok home) {t : Table}
    (h : (db.evaluate limit p e).result = .ok t) : ∃ counts : List ℕ,
      counts.length = p.steps.length ∧ (home.rowCount :: counts).Pairwise (· ≤ ·)
      ∧ (db.evaluate limit p e).Logs (.ok t) (List.zipWith .stepJoined p.steps counts
        ++ [.filterEvaluated (counts.getLastD home.rowCount) t.rowCount]) := by
  obtain ⟨r, counts, last, hframe, hlog⟩ := exists_logs_buildFrame limit hhome
  rw [(evaluate_returns db limit p e).result, hhome, hframe.result] at h
  obtain ⟨frame, rfl, hlocate⟩ := eq_ok_of_bind (x := r) h
  obtain ⟨located, hlocated, hselect⟩ := eq_ok_of_bind hlocate
  obtain ⟨hlength, hsize, rfl⟩ := hlog.done frame rfl
  refine ⟨counts, hlength, hlog.grows, ?_⟩
  rw [List.append_nil] at hframe
  rw [← hsize, rowCount_select hselect]
  unfold evaluate
  rw [hhome]
  refine (logs_answer _).bind_ok (hframe.bind_ok ?_)
  rw [hlocated]
  refine (logs_answer _).bind_ok ((logs_emit _).bind_ok ?_)
  rw [hselect]
  exact logs_answer _

/-- A column that is not found is no matter of the number of rows. -/
lemma locate_ne_frameTooLarge (f : Frame) (c : BoundColumn) (rows most : ℕ) :
    db.locate p f c ≠ .error (.frameTooLarge rows most) := by
  intro h
  rcases eq_error_of_bind h with h | ⟨t, -, h⟩
  · unfold table at h
    split at h <;> cases h
  · split at h <;> cases h

/-- **What an evaluation logs if there are too many joined rows.** -/
theorem logs_evaluate_error (hhome : db.table p.home = .ok home) {rows most : ℕ}
    (h : (db.evaluate limit p e).result = .error (.frameTooLarge rows most)) : ∃ counts : List ℕ,
      ∃ hlt : counts.length < p.steps.length, (home.rowCount :: counts).Pairwise (· ≤ ·)
      ∧ (db.evaluate limit p e).Logs (.error (.frameTooLarge rows most))
        (List.zipWith .stepJoined p.steps counts
          ++ [.frameOverLimit (p.steps[counts.length]).relation most]) := by
  obtain ⟨r, counts, last, hframe, hlog⟩ := exists_logs_buildFrame limit hhome
  rw [(evaluate_returns db limit p e).result, hhome, hframe.result] at h
  rcases eq_error_of_bind (x := r) h with rfl | ⟨frame, rfl, hlocate⟩
  · obtain ⟨hlt, rfl⟩ := hlog.stopped rows most rfl
    refine ⟨counts, hlt, hlog.grows, ?_⟩
    unfold evaluate
    rw [hhome]
    exact (logs_answer _).bind_ok (hframe.bind_error _)
  · -- behind the joins there are other failures, but not this one
    rcases eq_error_of_bind hlocate with hlocate | ⟨located, -, hselect⟩
    · obtain ⟨c, -, hc⟩ := Expr.exists_of_mapColumnsM_error hlocate
      exact absurd hc (locate_ne_frameTooLarge _ _ _ _)
    · rw [Table.select_eq_restrict (length_marks ..)] at hselect
      cases hselect

end Database

/-! ## Binding and planning -/

/-- The event that tells of an owner that was searched for. -/
def Event.IsColumnFound (e : Event) : Prop := ∃ column owner, e = .columnFound column owner

lemma Database.logsOnly_bindTraced (db : Database) (home : TableId) (rule : UnqualifiedRule)
    (r : Reference) : LogsOnly Event.IsColumnFound (db.bindTraced home rule r) := by
  refine (LogsOnly.of_logs (logs_answer _)).bind fun b => ?_
  split_ifs
  · exact ⟨_, _, (logs_emit _).bind_ok (logs_pure _), by simp [Event.IsColumnFound]⟩
  · exact .of_logs (logs_pure _)

lemma Database.logsOnly_bindFilter (db : Database) (home : TableId) (rule : UnqualifiedRule)
    (e : Expr Reference) : LogsOnly Event.IsColumnFound (db.bindFilter home rule e) :=
  (LogsOnly.of_logs (logs_answer _)).bind fun _ =>
    (LogsOnly.mapColumnsM (db.logsOnly_bindTraced home rule) e).bind fun _ =>
      .of_logs (logs_pure _)

namespace Catalog

variable {c : Catalog} {home : TableId} {text : String}

/-- **What a preparation logs if it succeeds.** -/
lemma logs_prepare {bound : BoundFilter} {plan : JoinPlan}
    (h : (c.prepare home text).result = .ok (bound, plan)) : ∃ found : List Event,
      (∀ e ∈ found, e.IsColumnFound)
      ∧ (c.prepare home text).Logs (.ok (bound, plan)) (found
        ++ [.planBuilt home plan.steps.length,
          .filterPrepared home bound.expr plan.steps.length]) := by
  obtain ⟨hlength, e, hparse, hbound, hplan⟩ := prepare_eq_ok_iff.1 h
  obtain ⟨r, found, hlogs, hfound⟩ :=
    c.database.logsOnly_bindFilter home c.settings.unqualified e
  obtain rfl : r = .ok bound := hlogs.result.symm.trans hbound
  refine ⟨found, hfound, ?_⟩
  simp only [prepare]
  rw [if_neg (not_lt.2 hlength), hparse]
  refine (logs_answer _).bind_ok (hlogs.bind_ok ?_)
  rw [hplan]
  exact (logs_answer _).bind_ok ((logs_emit _).bind_ok ((logs_emit _).bind_ok (logs_pure _)))

/-- The log of a filter: owners that were found, its plan, the joins that were carried out, with the
row counts `counts`, and the event `last` that it ended with.  `t` is the home table. -/
structure FilterLog (c : Catalog) (home : TableId) (text : String) (plan : JoinPlan) (t : Table)
    (counts : List ℕ) (last : Event) : Prop where
  explained : (c.explain home text).result = .ok plan
  table : c.table? home = some t
  grows : (t.rowCount :: counts).Pairwise (· ≤ ·)
  events : ∃ (found : List Event) (bound : BoundFilter), (∀ e ∈ found, e.IsColumnFound)
    ∧ (c.prepare home text).result = .ok (bound, plan)
    ∧ (c.filter home text).start.2.toList = found
      ++ ([.planBuilt home plan.steps.length, .filterPrepared home bound.expr plan.steps.length]
        ++ (List.zipWith .stepJoined plan.steps counts ++ [last]))

/-- What a filter logs is what its preparation and its evaluation log. -/
lemma FilterLog.of_evaluate {bound : BoundFilter} {plan : JoinPlan} {t : Table} {counts : List ℕ}
    {last : Event} {r : Except Failure Table} (ht : c.table? home = some t)
    (hprepare : (c.prepare home text).result = .ok (bound, plan))
    (hgrows : (t.rowCount :: counts).Pairwise (· ≤ ·))
    (hevaluate : (c.database.evaluate c.settings.maxFrameRows plan bound.expr).Logs r
      (List.zipWith .stepJoined plan.steps counts ++ [last])) :
    c.FilterLog home text plan t counts last := by
  obtain ⟨found, hfound, hlogs⟩ := logs_prepare hprepare
  have hfilter : (c.filter home text).Logs r _ := hlogs.bind_ok hevaluate
  refine ⟨explain_of_prepare hprepare, ht, hgrows, found, bound, hfound, hprepare, ?_⟩
  rw [hfilter.events, List.append_assoc]

/-- The only event of a log that can warn is the last one. -/
lemma FilterLog.filter_warn {plan : JoinPlan} {t : Table} {counts : List ℕ} {last : Event}
    (h : c.FilterLog home text plan t counts last) :
    ((c.filter home text).start.2.toList.filter fun e => e.level = .warn)
      = [last].filter fun e => e.level = .warn := by
  obtain ⟨found, bound, hfound, -, hevents⟩ := h.events
  have hsearch : (found.filter fun e => e.level = .warn) = [] := by
    refine List.filter_eq_nil_iff.2 fun e he => ?_
    obtain ⟨column, owner, rfl⟩ := hfound e he
    simp [Event.level]
  have hjoins : ((List.zipWith Event.stepJoined plan.steps counts).filter
      fun e => e.level = .warn) = [] := by
    refine List.filter_eq_nil_iff.2 fun e he => ?_
    rw [← List.map_uncurry_zip_eq_zipWith] at he
    obtain ⟨⟨step, rows⟩, -, rfl⟩ := List.mem_map.1 he
    simp [Event.level]
  rw [hevents, List.filter_append, List.filter_append, List.filter_append, hsearch, hjoins]
  rfl

/-- A filter that has an answer, or too many joined rows, has been prepared. -/
lemma exists_evaluate_of_filter (hc : c.Reachable) {r : Except Failure Table}
    (h : (c.filter home text).result = r) (hr : ∀ x, r = .error x → ¬ x.OfPreparation home) :
    ∃ bound plan t, (c.prepare home text).result = .ok (bound, plan) ∧ c.table? home = some t
      ∧ c.database.table plan.home = .ok t
      ∧ (c.database.evaluate c.settings.maxFrameRows plan bound.expr).result = r := by
  cases hprepare : (c.prepare home text).result with
  | error x =>
    rw [filter_eq_error hprepare] at h
    exact absurd (prepare_error hc hprepare) (hr x h.symm)
  | ok prepared =>
    obtain ⟨bound, plan⟩ := prepared
    obtain ⟨t, -, ht, -⟩ := exists_evaluate_of_prepare hc hprepare
    obtain ⟨-, e, -, -, hplan⟩ := prepare_eq_ok_iff.1 hprepare
    have hself := (prepare_returns c home text).self
    rw [hprepare] at hself
    have hfilter : (c.filter home text).Returns
        (c.database.evaluate c.settings.maxFrameRows plan bound.expr).result :=
      hself.bind_ok (Database.evaluate_returns _ _ plan bound.expr).self
    refine ⟨bound, plan, t, rfl, ht, ?_, hfilter.result.symm.trans h⟩
    rw [home_of_plan hplan]
    exact Database.table_eq_ok_iff.2 ht

/-- **The log of a filter tells what happened.**  If the filter has an answer, every join of its
plan was carried out and told of in order, with row counts that do not fall; the last count is that
of the joined rows that were evaluated, and as many rows were kept as there are in the answer.  If
there were too many joined rows, not every join was carried out, and the one warning says which
limit was in the way. -/
theorem log_of_filter (hc : c.Reachable) (home : TableId) (text : String) :
    (∀ answer, (c.filter home text).result = .ok answer → ∃ plan t counts,
      counts.length = plan.steps.length
      ∧ c.FilterLog home text plan t counts
        (.filterEvaluated (counts.getLastD t.rowCount) answer.rowCount))
    ∧ ∀ rows most, (c.filter home text).result = .error (.frameTooLarge rows most) →
      ∃ plan t counts, ∃ hlt : counts.length < plan.steps.length,
        c.FilterLog home text plan t counts
          (.frameOverLimit (plan.steps[counts.length]).relation most)
        ∧ ((c.filter home text).start.2.toList.filter fun e => e.level = .warn)
          = [.frameOverLimit (plan.steps[counts.length]).relation most] := by
  refine ⟨fun answer h => ?_, fun rows most h => ?_⟩
  · obtain ⟨bound, plan, t, hprepare, ht, hhome, hevaluate⟩ :=
      exists_evaluate_of_filter hc h (by rintro x ⟨⟩)
    obtain ⟨counts, hlength, hgrows, hlogs⟩ := Database.logs_evaluate_ok hhome hevaluate
    exact ⟨plan, t, counts, hlength, .of_evaluate ht hprepare hgrows hlogs⟩
  · obtain ⟨bound, plan, t, hprepare, ht, hhome, hevaluate⟩ :=
      exists_evaluate_of_filter hc h (by rintro x ⟨⟩ hx; exact hx)
    obtain ⟨counts, hlt, hgrows, hlogs⟩ := Database.logs_evaluate_error hhome hevaluate
    have hlog : c.FilterLog home text plan t counts _ := .of_evaluate ht hprepare hgrows hlogs
    exact ⟨plan, t, counts, hlt, hlog, hlog.filter_warn⟩

/-- The tables of `chain`, with four joined rows at most. -/
def shortened : Catalog := chain.withSettings ⟨1048576, some 4, .preferHome⟩

/-- The first join of the chain comes to four rows and the second one to six, so a limit of four
lets the first one pass. -/
theorem log_of_filter_chain :
    chain.Reachable ∧ shortened.Reachable
    ∧ (∃ answer, (chain.filter 0 "z == 1").result = .ok answer ∧ ∃ plan t counts,
      counts.length = plan.steps.length
      ∧ chain.FilterLog 0 "z == 1" plan t counts
        (.filterEvaluated (counts.getLastD t.rowCount) answer.rowCount))
    ∧ (shortened.filter 0 "z == 1").result = .error (.frameTooLarge 5 4)
    ∧ ∃ plan t counts, ∃ hlt : counts.length < plan.steps.length,
      shortened.FilterLog 0 "z == 1" plan t counts
        (.frameOverLimit (plan.steps[counts.length]).relation 4)
      ∧ ((shortened.filter 0 "z == 1").start.2.toList.filter fun e => e.level = .warn)
        = [.frameOverLimit (plan.steps[counts.length]).relation 4] := by
  have hshortened : shortened.Reachable := .withSettings _ reachable_chain
  have hruns : (∃ answer, (chain.filter 0 "z == 1").result = .ok answer)
      ∧ (shortened.filter 0 "z == 1").result = .error (.frameTooLarge 5 4) :=
    ⟨⟨_, by cbv⟩, by cbv⟩
  obtain ⟨⟨answer, hanswer⟩, hstopped⟩ := hruns
  exact ⟨reachable_chain, hshortened,
    ⟨answer, hanswer, (log_of_filter reachable_chain 0 "z == 1").1 answer hanswer⟩,
    hstopped, (log_of_filter hshortened 0 "z == 1").2 5 4 hstopped⟩

example : (shortened.filter 0 "z == 1").start.2.toList.map Event.message
    = ["resolved unqualified column", "join plan built", "filter prepared", "join step applied",
      "join frame exceeds the configured limit"] := by
  cbv

end Catalog

end LinkedTables
