import Mathlib
import LinkedTables.Filter.Evaluation
import LinkedTables.Proofs.Join.Frame

/-!
# Limits on joined rows

A limit is looked at after every row of every join, and nothing else depends on it.  So an
evaluation under a limit answers as it does without one, or it stops because there are more rows
than the limit: there is no third way for it to end.

`Traced.Limits` is that statement about two computations, the one under a limit and the one without.
It is handed on by steps in a row and by loops, so it has to be shown of `Frame.extendRows` alone,
where the limit is looked at.

When it stops is told by the last join.  No join loses a row, so a limit that is met in the end has
been met all along (`Frame.foldlM_join_limit_iff`), and an evaluation succeeds under a limit exactly
if the frame of the whole plan is small enough (`Database.evaluate_limit_iff`).  A plan without
joins is never stopped.
-/

namespace LinkedTables

namespace Traced

variable {α β : Type} {limit : Option ℕ}

/-- Under a limit on joined rows the first computation answers as the second one, or it stops at
more rows than the limit. -/
def Limits (limit : Option ℕ) (x y : Traced α) : Prop :=
  ∃ r, y.Returns r ∧ (x.Returns r ∨ ∃ rows most, limit = some most ∧ most < rows
    ∧ x.Returns (.error (.frameTooLarge rows most)))

/-- What does not look at the limit. -/
lemma Limits.same {x : Traced α} {r : Except Failure α} (h : x.Returns r) : Limits limit x x :=
  ⟨r, h, Or.inl h⟩

lemma Limits.bind {x y : Traced α} {f g : α → Traced β} (h : Limits limit x y)
    (hf : ∀ a, Limits limit (f a) (g a)) : Limits limit (x >>= f) (y >>= g) := by
  rcases h with ⟨r, hy, hx⟩
  cases r with
  | error e =>
    refine ⟨.error e, hy.bind_error g, ?_⟩
    rcases hx with hx | ⟨rows, most, hlimit, hlt, hx⟩
    · exact Or.inl (hx.bind_error f)
    · exact Or.inr ⟨rows, most, hlimit, hlt, hx.bind_error f⟩
  | ok a =>
    rcases hf a with ⟨r, hg, hfa⟩
    refine ⟨r, hy.bind_ok hg, ?_⟩
    rcases hx with hx | ⟨rows, most, hlimit, hlt, hx⟩
    · rcases hfa with hfa | ⟨rows, most, hlimit, hlt, hfa⟩
      · exact Or.inl (hx.bind_ok hfa)
      · exact Or.inr ⟨rows, most, hlimit, hlt, hx.bind_ok hfa⟩
    · exact Or.inr ⟨rows, most, hlimit, hlt, hx.bind_error f⟩

lemma Limits.foldlM {f g : β → α → Traced β} (h : ∀ b a, Limits limit (f b a) (g b a))
    {as : List α} : ∀ {b : β}, Limits limit (as.foldlM f b) (as.foldlM g b) := by
  induction as with
  | nil =>
    intro b
    exact .same (returns_pure b)
  | cons a rest ih =>
    intro b
    rw [List.foldlM_cons, List.foldlM_cons]
    exact (h b a).bind fun b' => ih

end Traced

/-! ## Joins and evaluation -/

open Traced

/-- The rows of the table to be joined that match a joined row, found with the index. -/
abbrev Frame.indexed (left right : Table) (slot : ℕ) (step : JoinStep) : FrameRow → List ℕ :=
  matchesOf (indexOf right step.onRight) slot (cellsOf left step.onLeft)

variable (db : Database) (limit : Option ℕ)

/-- Where the limit is looked at. -/
lemma Frame.extendRows_limit (matching : FrameRow → List ℕ) (rows : List FrameRow) :
    ∀ (done : List FrameRow) (count : ℕ),
      extendRows limit matching done count rows = extendRows none matching done count rows
      ∨ ∃ total most, limit = some most ∧ most < total
        ∧ extendRows limit matching done count rows = .error (total, most) := by
  induction rows with
  | nil => exact fun done count => Or.inl rfl
  | cons row rest ih =>
    intro done count
    simp only [extendRows, Option.filter_none]
    split
    · rename_i most hmost
      rcases Option.filter_eq_some_iff.1 hmost with ⟨hlimit, hlt⟩
      exact Or.inr ⟨_, most, hlimit, by simpa using hlt, rfl⟩
    · exact ih _ _

lemma Frame.limits_join (f : Frame) (step : JoinStep) :
    Limits limit (f.join db limit step) (f.join db none step) := by
  simp only [Frame.join]
  refine (Limits.same (returns_answer _)).bind fun left => ?_
  refine (Limits.same (returns_answer _)).bind fun right => ?_
  cases f.slot? step.source with
  | none => exact .same (returns_throw _)
  | some slot =>
    dsimp only
    rcases extendRows_limit limit (indexed left right slot step) f.rows.toList [] 0 with
      h | ⟨total, most, hlimit, hlt, h⟩
    · rw [h, extendRows_none]
      exact .same (Returns.after_emit _ (returns_pure _))
    · rw [h, extendRows_none]
      exact ⟨_, Returns.after_emit _ (returns_pure _), Or.inr ⟨total, most, hlimit, hlt,
        Returns.after_emit _ (returns_throw _)⟩⟩

/-- **An evaluation under a limit** answers as it does without one, or it stops because there are
more rows than the limit. -/
theorem Database.limits_evaluate (p : JoinPlan) (e : Expr BoundColumn) :
    Limits limit (db.evaluate limit p e) (db.evaluate none p e) := by
  have hframe : Limits limit (db.buildFrame limit p) (db.buildFrame none p) := by
    simp only [Database.buildFrame]
    exact (Limits.same (returns_answer _)).bind fun home =>
      Limits.foldlM (Frame.limits_join db limit)
  simp only [Database.evaluate]
  refine (Limits.same (returns_answer _)).bind fun home => hframe.bind fun frame => ?_
  refine (Limits.same (returns_answer _)).bind fun located => ?_
  exact .same (Returns.after_emit _ (returns_answer _))

/-! ## Whether a limit is met -/

variable {db limit}

/-- A limit is met while rows are extended exactly if it is met in the end. -/
lemma Frame.extendRows_eq_ok_iff {matching : FrameRow → List ℕ} {rows : List FrameRow} :
    ∀ {done made : List FrameRow}, extendRows limit matching done done.length rows = .ok made
      ↔ made = done.reverse ++ rows.flatMap (fun row => extendRow row (matching row))
        ∧ (rows ≠ [] → ∀ most, limit = some most → made.length ≤ most) := by
  induction rows with
  | nil =>
    intro done made
    simp [extendRows, eq_comm]
  | cons row rest ih =>
    intro done made
    have hlength : done.length + (extendRow row (matching row)).length
        = ((extendRow row (matching row)).reverse ++ done).length := by
      simp [Nat.add_comm]
    simp only [extendRows, ne_eq, reduceCtorEq, not_false_eq_true, forall_const]
    split
    · -- the limit is exceeded here, and more rows make it no better
      rename_i most hmost
      obtain ⟨hlimit, hlt⟩ := Option.filter_eq_some_iff.1 hmost
      refine iff_of_false (by simp) ?_
      rintro ⟨rfl, hle⟩
      have hle := hle most hlimit
      have hlt : most < done.length + (extendRow row (matching row)).length := by simpa using hlt
      simp only [List.flatMap_cons, List.length_append, List.length_reverse] at hle
      omega
    · rename_i hnone
      rw [hlength, ih]
      simp only [List.reverse_append, List.reverse_reverse, List.append_assoc, List.flatMap_cons]
      refine and_congr_right fun hmade => ⟨fun hle most hlimit => ?_, fun hle _ => hle⟩
      rcases List.eq_nil_or_concat rest with rfl | ⟨rest', last, rfl⟩
      · have hnot : ¬ most < done.length + (extendRow row (matching row)).length := by
          simpa [hlimit, Option.filter_eq_none_iff] using hnone
        rw [hmade]
        simpa using hnot
      · exact hle (by simp) most hlimit

lemma Frame.join_returns (db : Database) (limit : Option ℕ) (f : Frame) (step : JoinStep) :
    (f.join db limit step).Returns (do
      let left ← db.table step.source
      let right ← db.table step.target
      match f.slot? step.source with
      | none => .error (.unknownTable step.source)
      | some slot =>
        match extendRows limit (indexed left right slot step) [] 0 f.rows.toList with
        | .error (rows, limit) => .error (.frameTooLarge rows limit)
        | .ok rows => .ok ⟨f.tables ++ [step.target], rows.toArray⟩) := by
  simp only [Frame.join]
  refine (returns_answer _).bind fun left => (returns_answer _).bind fun right => ?_
  cases f.slot? step.source with
  | none => exact returns_throw _
  | some slot =>
    dsimp only
    cases extendRows limit (indexed left right slot step) [] 0 f.rows.toList with
    | error x => exact Returns.after_emit _ (returns_throw _)
    | ok rows => exact Returns.after_emit _ (returns_pure _)

/-- A join replaces every row by what it becomes, if there are not more rows in the end than the
limit. -/
lemma Frame.join_eq_ok_iff {f f' : Frame} {step : JoinStep} :
    (f.join db limit step).result = .ok f' ↔ (∀ most, limit = some most → f'.size ≤ most)
      ∧ ∃ left right slot, db.table step.source = .ok left ∧ db.table step.target = .ok right
        ∧ f.slot? step.source = some slot
        ∧ f' = ⟨f.tables ++ [step.target], (f.rows.toList.flatMap fun row =>
          extendRow row (indexed left right slot step row)).toArray⟩ := by
  rw [(join_returns db limit f step).result]
  constructor
  · intro h
    obtain ⟨left, hleft, h⟩ := eq_ok_of_bind h
    obtain ⟨right, hright, h⟩ := eq_ok_of_bind h
    split at h
    · cases h
    rename_i slot hslot
    split at h
    · cases h
    rename_i rows hrows
    cases h
    obtain ⟨rfl, hle⟩ := extendRows_eq_ok_iff.1 hrows
    refine ⟨fun most hlimit => ?_, left, right, slot, hleft, hright, hslot, rfl⟩
    by_cases hempty : f.rows.toList = []
    · simp [hempty, Frame.size]
    · simpa [Frame.size] using hle hempty most hlimit
  · rintro ⟨hle, left, right, slot, hleft, hright, hslot, rfl⟩
    have hrows : extendRows limit (indexed left right slot step) [] 0 f.rows.toList
        = .ok (f.rows.toList.flatMap fun row =>
          extendRow row (indexed left right slot step row)) :=
      extendRows_eq_ok_iff.2
        ⟨rfl, fun _ most hlimit => by simpa [Frame.size] using hle most hlimit⟩
    rw [hleft, hright]
    show (match f.slot? step.source with | none => _ | some slot => _) = _
    rw [hslot]
    dsimp only
    rw [hrows]

lemma Frame.join_limit_iff {f f' : Frame} {step : JoinStep} :
    (f.join db limit step).result = .ok f' ↔ (f.join db none step).result = .ok f'
      ∧ ∀ most, limit = some most → f'.size ≤ most := by
  rw [join_eq_ok_iff, join_eq_ok_iff, and_comm]
  simp

/-- No row is lost. -/
lemma Frame.size_le_of_join {f f' : Frame} {step : JoinStep}
    (h : (f.join db limit step).result = .ok f') : f.size ≤ f'.size := by
  obtain ⟨-, left, right, slot, -, -, -, rfl⟩ := join_eq_ok_iff.1 h
  have hpos : ∀ (row : FrameRow) (matching : List ℕ), 1 ≤ (extendRow row matching).length := by
    intro row matching
    cases matching <;> simp [extendRow]
  simp only [Frame.size, List.size_toArray, List.length_flatMap]
  refine le_trans (by simp) (List.length_le_sum_of_one_le _ ?_)
  intro n hn
  obtain ⟨row, -, rfl⟩ := List.mem_map.1 hn
  exact hpos row _

/-- **A limit is met at every join** exactly if it is met at the last one. -/
lemma Frame.foldlM_join_limit_iff {steps : List JoinStep} : ∀ {f f' : Frame},
    steps.foldlM (fun f t => (f.join db limit t).result) f = .ok f'
      ↔ steps.foldlM (fun f t => (f.join db none t).result) f = .ok f'
        ∧ (steps ≠ [] → ∀ most, limit = some most → f'.size ≤ most) := by
  induction steps with
  | nil =>
    intro f f'
    simp
  | cons t rest ih =>
    intro f f'
    simp only [List.foldlM_cons, ne_eq, reduceCtorEq, not_false_eq_true, forall_const]
    constructor
    · intro h
      obtain ⟨f₁, hjoin, h⟩ := eq_ok_of_bind h
      obtain ⟨hjoin, hle₁⟩ := join_limit_iff.1 hjoin
      obtain ⟨hrest, hle⟩ := ih.1 h
      refine ⟨?_, ?_⟩
      · rw [hjoin]
        exact hrest
      · intro most hlimit
        cases rest with
        | nil =>
          cases hrest
          exact hle₁ most hlimit
        | cons u rest => exact hle (by simp) most hlimit
    · rintro ⟨h, hle⟩
      obtain ⟨f₁, hjoin, hrest⟩ := eq_ok_of_bind h
      have hsize : f₁.size ≤ f'.size :=
        foldlM_keeps (P := fun g => f₁.size ≤ g.size)
          (fun _ hg hnext => hg.trans (size_le_of_join hnext)) le_rfl hrest
      rw [join_limit_iff.2 ⟨hjoin, fun most hlimit => hsize.trans (hle most hlimit)⟩]
      exact ih.2 ⟨hrest, fun _ => hle⟩

lemma Database.buildFrame_returns (db : Database) (limit : Option ℕ) (p : JoinPlan) :
    (db.buildFrame limit p).Returns (do
      let home ← db.table p.home
      p.steps.foldlM (fun f t => (f.join db limit t).result) (.ofHome p.home home.rowCount)) :=
  (returns_answer _).bind fun _ => Returns.foldlM fun f t => (f.join_returns db limit t).self

lemma Database.buildFrame_limit_iff {p : JoinPlan} {f : Frame} :
    (db.buildFrame limit p).result = .ok f ↔ (db.buildFrame none p).result = .ok f
      ∧ (p.steps ≠ [] → ∀ most, limit = some most → f.size ≤ most) := by
  rw [(db.buildFrame_returns limit p).result, (db.buildFrame_returns none p).result]
  cases db.table p.home with
  | error x => exact iff_of_false (by rintro ⟨⟩) (by rintro ⟨⟨⟩, -⟩)
  | ok home => exact Frame.foldlM_join_limit_iff

/-- An evaluation does not look at the log. -/
lemma Database.evaluate_returns (db : Database) (limit : Option ℕ) (p : JoinPlan)
    (e : Expr BoundColumn) :
    (db.evaluate limit p e).Returns (do
      let home ← db.table p.home
      let frame ← (db.buildFrame limit p).result
      let located ← e.mapColumnsM (db.locate p frame)
      home.select (marks home.rowCount frame.rows.toList located)) :=
  (returns_answer _).bind fun _ => (db.buildFrame_returns limit p).self.bind fun _ =>
    (returns_answer _).bind fun _ => Returns.after_emit _ (returns_answer _)

/-- **An evaluation succeeds under a limit** exactly if it does without one and there are not more
joined rows in the end, unless nothing is joined at all. -/
theorem Database.evaluate_limit_iff {p : JoinPlan} {e : Expr BoundColumn} {t : Table} :
    (db.evaluate limit p e).result = .ok t ↔ (db.evaluate none p e).result = .ok t
      ∧ ∃ f, (db.buildFrame none p).result = .ok f
        ∧ (p.steps ≠ [] → ∀ most, limit = some most → f.size ≤ most) := by
  rw [(db.evaluate_returns limit p e).result, (db.evaluate_returns none p e).result]
  constructor
  · intro h
    obtain ⟨home, hhome, h⟩ := eq_ok_of_bind h
    obtain ⟨f, hframe, h⟩ := eq_ok_of_bind h
    obtain ⟨hframe, hle⟩ := buildFrame_limit_iff.1 hframe
    refine ⟨?_, f, hframe, hle⟩
    rw [hhome, hframe]
    exact h
  · rintro ⟨h, f, hframe, hle⟩
    obtain ⟨home, hhome, h⟩ := eq_ok_of_bind h
    rw [hhome, buildFrame_limit_iff.2 ⟨hframe, hle⟩]
    rw [hframe] at h
    exact h

end LinkedTables
