import Mathlib
import LinkedTables.Proofs.Catalog.Parsed

/-!
# Plans read their own tables

The plan of a filter is evaluated with the tables that it joins, and written with their names; what
else there is in a database does not matter.  `JoinPlan.Carried` says that a plan has been carried
over to a database in which these tables and their names are the same.  It is then evaluated there
as before, down to what is logged (`Carried.evaluate_eq`), and written as before
(`Carried.text_eq`).  So two catalogs give the same answer to a filter that both bind alike, if the
plan of one has been carried over to the other (`filter_eq_of_carried`).

A plan has the names of all registered tables with it, so plans of different databases are seldom
equal, even if their steps are.
-/

namespace LinkedTables

lemma tableName_of_plan {s : Schema} {home : TableId} {f : BoundFilter} {p : JoinPlan}
    (h : s.plan home f = .ok p) (id : TableId) : p.tableName id = s.nameOf id := by
  rcases plan_eq_ok h with ⟨steps, steps', -, -, rfl⟩
  simp [JoinPlan.tableName, Schema.nameOf, Schema.tableName?]

namespace JoinPlan

variable {db db' : Database} {p p' : JoinPlan}

/-- A plan, and one of another database with the same steps, whose tables are the same in both
databases and are called the same. -/
structure Carried (db db' : Database) (p p' : JoinPlan) : Prop where
  home : p'.home = p.home
  steps : p'.steps = p.steps
  name : ∀ id ∈ p.tables, p'.tableName id = p.tableName id
  table : ∀ id ∈ p.tables, db'.table id = db.table id

/-- **A plan is written with the names of its tables.** -/
theorem Carried.text_eq (h : Carried db db' p p') (hp : p.Runnable) : p'.text = p.text := by
  have hstep : ∀ step ∈ p.steps, p'.stepText step = p.stepText step := by
    intro step hstep
    obtain ⟨hsource, htarget⟩ := hp.mem_tables hstep
    unfold stepText
    rw [h.name _ hsource, h.name _ htarget]
  have hhome : p'.tableName p.home = p.tableName p.home := h.name _ (List.mem_cons_self ..)
  unfold text
  rw [h.steps, h.home, hhome]
  exact List.foldl_ext _ _ _ fun out step ht => congrArg (out ++ ·) (hstep step ht)

lemma Carried.join_eq (h : Carried db db' p p') (hp : p.Runnable) {limit : Option ℕ} {f : Frame}
    {step : JoinStep} (hstep : step ∈ p.steps) : f.join db' limit step = f.join db limit step := by
  obtain ⟨hsource, htarget⟩ := hp.mem_tables hstep
  rw [Frame.join, Frame.join, h.table _ hsource, h.table _ htarget]

/-- **A plan is evaluated with its tables**, and so are the columns that belong to them. -/
theorem Carried.evaluate_eq (h : Carried db db' p p') (hp : p.Runnable) {limit : Option ℕ}
    {e : Expr BoundColumn} (he : ∀ c ∈ e.columns, c.table ∈ p.tables) :
    db'.evaluate limit p' e = db.evaluate limit p e := by
  have hhome : db'.table p'.home = db.table p.home := by
    rw [h.home, h.table p.home (List.mem_cons_self ..)]
  have hframe : db'.buildFrame limit p' = db.buildFrame limit p := by
    rw [Database.buildFrame, Database.buildFrame, hhome, h.steps, h.home]
    exact bind_congr fun t => foldlM_congr (fun f step hstep => h.join_eq hp hstep) _
  have hlocate : ∀ f : Frame, e.mapColumnsM (db'.locate p' f) = e.mapColumnsM (db.locate p f) := by
    intro f
    refine Expr.mapColumnsM_congr fun c hc => ?_
    rw [Database.locate, Database.locate, h.table _ (he c hc), h.name _ (he c hc)]
  simp only [Database.evaluate, hhome, hframe, hlocate]

end JoinPlan

namespace Catalog

variable {c c' : Catalog} {home : TableId} {text : String} {f : BoundFilter} {p p' : JoinPlan}

/-! ## The answer of a filter -/

/-- What is known of a plan that a filter has been prepared with. -/
lemma plan_of_prepare (hc : c.Reachable) (h : (c.prepare home text).result = .ok (f, p)) :
    p.home = home ∧ p.Runnable ∧ (∀ id ∈ p.tables, ∃ t, c.table? id = some t)
      ∧ ∀ col ∈ f.expr.columns, col.table ∈ p.tables := by
  obtain ⟨-, e, -, hbound, hplan⟩ := prepare_eq_ok_iff.1 h
  obtain ⟨⟨t, ht⟩, hsound⟩ := Database.bindFilter_sound hbound
  have hs : c.database.schema.Closed := hc.closed.schema
  obtain ⟨rfl, hcovers, -, -⟩ := covers_of_plan hs hsound hplan
  exact ⟨rfl, runnable_of_plan hs hsound hplan,
    hc.closed.registered (Database.table_eq_ok_iff.1 ht) hcovers.grown,
    fun _ => owner_mem_tables hs hsound hplan⟩

/-- A filter that has been prepared is answered by evaluating its plan. -/
lemma filter_eq_evaluate (h : (c.prepare home text).result = .ok (f, p)) :
    (c.filter home text).result
      = (c.database.evaluate c.settings.maxFrameRows p f.expr).result := by
  have hself := (prepare_returns c home text).self
  rw [h] at hself
  exact (hself.bind_ok (Database.evaluate_returns _ _ p f.expr).self).result

/-- **A filter that is bound alike**, with its plan carried over, has the same answer. -/
theorem filter_eq_of_carried (hc : c.Reachable) (h : (c.prepare home text).result = .ok (f, p))
    (h' : (c'.prepare home text).result = .ok (f, p'))
    (hlimit : c'.settings.maxFrameRows = c.settings.maxFrameRows)
    (hcarried : JoinPlan.Carried c.database c'.database p p') :
    (c'.filter home text).result = (c.filter home text).result := by
  obtain ⟨-, hrunnable, -, howners⟩ := plan_of_prepare hc h
  rw [filter_eq_evaluate h, filter_eq_evaluate h', hlimit, hcarried.evaluate_eq hrunnable howners]

end Catalog

end LinkedTables
