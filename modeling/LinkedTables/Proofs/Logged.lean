import Mathlib
import LinkedTables.Proofs.Filter.Traversal

/-!
# Computations with their log

No computation of the library looks at the log it writes, so what a computation does is its answer
and the events that it adds.  `Traced.Logs x r events` says so: whatever has been logged before, `x`
answers `r`, and `events` come behind what was there.  Where `Traced.Returns` speaks of the answer
alone, the rules here also say that the events of two steps in a row stand in a row, and that a
step that fails is the last one to log anything.

Often it matters only which kinds of events a computation can log; `Traced.LogsOnly` is handed on by
steps in a row, and by the replacement of the columns of a filter.
-/

namespace LinkedTables.Traced

variable {α β γ δ : Type}

/-- What a computation answers, and the events that it adds to the log. -/
def Logs (x : Traced α) (r : Except Failure α) (events : List Event) : Prop :=
  ∀ log, x.run.run log = (r, log ++ events.toArray)

lemma Logs.result {x : Traced α} {r : Except Failure α} {events : List Event}
    (h : x.Logs r events) : x.result = r :=
  congrArg Prod.fst (h #[])

lemma Logs.events {x : Traced α} {r : Except Failure α} {events : List Event}
    (h : x.Logs r events) : x.start.2.toList = events := by
  rw [start, h #[]]
  simp

lemma logs_answer (r : Except Failure α) : Logs (answer r) r [] := by
  intro log
  simp only [Array.append_empty]
  rfl

lemma logs_pure (a : α) : Logs (pure a) (.ok a) [] := logs_answer (.ok a)

lemma logs_throw (f : Failure) : Logs (throw f : Traced α) (.error f) [] := logs_answer (.error f)

lemma logs_emit (e : Event) : Logs (emit e) (.ok ()) [e] := by
  intro log
  rw [← Array.push_eq_append]
  rfl

/-- The events of two steps in a row stand in a row. -/
lemma Logs.bind_ok {x : Traced α} {a : α} {f : α → Traced β} {r : Except Failure β}
    {events more : List Event} (hx : x.Logs (.ok a) events) (hf : (f a).Logs r more) :
    Logs (x >>= f) r (events ++ more) := by
  intro log
  rw [run_bind, hx log]
  show (f a).run.run _ = _
  rw [hf]
  simp

/-- Behind a failure nothing is logged. -/
lemma Logs.bind_error {x : Traced α} {e : Failure} {events : List Event}
    (hx : x.Logs (.error e) events) (f : α → Traced β) : Logs (x >>= f) (.error e) events := by
  intro log
  rw [run_bind, hx log]
  rfl

/-- A computation logs events of one kind only. -/
def LogsOnly (P : Event → Prop) (x : Traced α) : Prop :=
  ∃ r events, x.Logs r events ∧ ∀ e ∈ events, P e

section

variable {P : Event → Prop}

lemma LogsOnly.of_logs {x : Traced α} {r : Except Failure α} (h : x.Logs r []) : LogsOnly P x :=
  ⟨r, [], h, by simp⟩

lemma LogsOnly.bind {x : Traced α} {f : α → Traced β} (hx : LogsOnly P x)
    (hf : ∀ a, LogsOnly P (f a)) : LogsOnly P (x >>= f) := by
  obtain ⟨r, events, hx, hevents⟩ := hx
  cases r with
  | error e => exact ⟨.error e, events, hx.bind_error f, hevents⟩
  | ok a =>
    obtain ⟨r, more, hfa, hmore⟩ := hf a
    refine ⟨r, events ++ more, hx.bind_ok hfa, fun e he => ?_⟩
    exact (List.mem_append.1 he).elim (hevents e) (hmore e)

lemma LogsOnly.map {x : Traced α} (h : LogsOnly P x) (f : α → β) : LogsOnly P (f <$> x) := by
  rw [map_eq_pure_bind]
  exact h.bind fun a => .of_logs (logs_pure _)

lemma LogsOnly.mapM {f : α → Traced β} {as : List α} (h : ∀ a ∈ as, LogsOnly P (f a)) :
    LogsOnly P (as.mapM f) := by
  induction as with
  | nil =>
    rw [List.mapM_nil]
    exact .of_logs (logs_pure _)
  | cons a rest ih =>
    rw [List.mapM_cons]
    refine (h a (List.mem_cons_self ..)).bind fun b => ?_
    exact (ih fun a ha => h a (List.mem_cons_of_mem _ ha)).bind fun bs => .of_logs (logs_pure _)

lemma LogsOnly.mapColumnsM {f : γ → Traced δ} (h : ∀ c, LogsOnly P (f c)) (e : Expr γ) :
    LogsOnly P (e.mapColumnsM f) := by
  induction e with
  | compare column op literal =>
    rw [Expr.mapColumnsM_compare]
    exact (h column).map _
  | and terms ih =>
    rw [Expr.mapColumnsM_and]
    exact (LogsOnly.mapM ih).map _
  | or terms ih =>
    rw [Expr.mapColumnsM_or]
    exact (LogsOnly.mapM ih).map _
  | not term ih =>
    rw [Expr.mapColumnsM_not]
    exact ih.map _

end

end LinkedTables.Traced
