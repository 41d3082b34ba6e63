import Mathlib
import LinkedTables.Proofs.Catalog.Parsed
import LinkedTables.Proofs.Join.Conflicts
import LinkedTables.Proofs.Join.Size

/-!
# The order of terms

The terms of a chain can be written in any order (`Expr.Reordered`): a filter that is answered gets
the same answer when terms are moved, and under the same limit on joined rows.

This has to be shown, since everything a filter goes through on the way depends on the order in
which its references stand.  That order decides which path is joined first and with it the order of
the joins, the places of the tables in the joined rows, and which rows are made before a limit is
looked at.  What does not depend on it:

* the paths and owners of the bound filter, taken as sets, and so the relations of its plan
  (`BoundFilter.Alike.exists_plan`);
* the number of joined rows, which alone decides about the limit (`JoinPlan.Alike.exists_buildFrame`
  and `Database.evaluate_limit_iff`);
* the rows of the home table that are kept, of which the answer is made in their own order
  (`JoinPlan.Runnable.keeps_iff_of_relations_subset`).
-/

namespace LinkedTables

namespace Expr

variable {γ : Type}

/-! ## Reordered filters -/

/-- One filter is the other with the terms of its chains moved, at any depth. -/
inductive Reordered : Expr γ → Expr γ → Prop
  | refl (e : Expr γ) : Reordered e e
  | trans {e₁ e₂ e₃ : Expr γ} : Reordered e₁ e₂ → Reordered e₂ e₃ → Reordered e₁ e₃
  | and {terms terms' : List (Expr γ)} :
      terms.Perm terms' → Reordered (.and terms) (.and terms')
  | or {terms terms' : List (Expr γ)} :
      terms.Perm terms' → Reordered (.or terms) (.or terms')
  | inAnd {term term' : Expr γ} (before after : List (Expr γ)) : Reordered term term' →
      Reordered (.and (before ++ term :: after)) (.and (before ++ term' :: after))
  | inOr {term term' : Expr γ} (before after : List (Expr γ)) : Reordered term term' →
      Reordered (.or (before ++ term :: after)) (.or (before ++ term' :: after))
  | inNot {term term' : Expr γ} : Reordered term term' → Reordered (.not term) (.not term')

variable {e e' : Expr γ}

lemma Reordered.columns_perm (h : e.Reordered e') : e.columns.Perm e'.columns := by
  induction h with
  | refl e => exact .refl _
  | trans _ _ ih ih' => exact ih.trans ih'
  | and h =>
    rw [columns_and, columns_and]
    exact h.flatMap_right columns
  | or h =>
    rw [columns_or, columns_or]
    exact h.flatMap_right columns
  | inAnd before after _ ih =>
    simp only [columns_and, List.flatMap_append, List.flatMap_cons]
    exact (ih.append_right _).append_left _
  | inOr before after _ ih =>
    simp only [columns_or, List.flatMap_append, List.flatMap_cons]
    exact (ih.append_right _).append_left _
  | inNot _ ih => exact ih

/-- Moving terms does not change whether a filter is true. -/
lemma Reordered.holds_iff {cell : γ → Cell} (h : e.Reordered e') :
    e.holds cell = true ↔ e'.holds cell = true := by
  induction h with
  | refl e => exact Iff.rfl
  | trans _ _ ih ih' => exact ih.trans ih'
  | and h => simp only [holds_and_iff, h.mem_iff]
  | or h => simp only [holds_or_iff, h.mem_iff]
  | inAnd before after _ ih =>
    simp only [holds_and_iff, List.forall_mem_append, List.forall_mem_cons, ih]
  | inOr before after _ ih =>
    simp only [holds_or_iff, List.mem_append, List.mem_cons, or_and_right, exists_or,
      exists_eq_left, ih]
  | inNot _ ih => rw [holds_not_iff, holds_not_iff, ih]

end Expr

/-! ## Binding and evaluating -/

namespace Database

variable {db : Database} {home : TableId}

/-- With its terms moved, a filter is bound to the same columns and paths. -/
lemma exists_bindFilter_of_reordered {rule : UnqualifiedRule} {e e' : Expr Reference}
    {f : BoundFilter} (h : e.Reordered e') (hf : (db.bindFilter home rule e).result = .ok f) :
    ∃ f', (db.bindFilter home rule e').result = .ok f' ∧ f.Alike f'
      ∧ ∀ cell, f.expr.holds cell = true ↔ f'.expr.holds cell = true := by
  have hrefers : e.RefersAlike e' := fun _ => (h.columns_perm.map Reference.form).mem_iff
  obtain ⟨f', hf', halike⟩ := exists_bindFilter_of_refersAlike hrefers hf
  refine ⟨f', hf', halike, fun cell => ?_⟩
  obtain ⟨-, -, rfl⟩ := bindFilter_eq_ok_iff.1 hf
  obtain ⟨-, -, rfl⟩ := bindFilter_eq_ok_iff.1 hf'
  rw [Expr.holds_mapColumns fun _ _ => rfl, Expr.holds_mapColumns fun _ _ => rfl]
  exact h.holds_iff

/-- Plans of the same relations keep the same rows, by filters that are true of the same rows. -/
lemma keeps_iff_of_alike {p p' : JoinPlan} (h : p.Alike p') (hp : p.Runnable) (hp' : p'.Runnable)
    {e e' : Expr BoundColumn} (hholds : ∀ cell, e.holds cell = true ↔ e'.holds cell = true)
    (howners : ∀ c ∈ e.columns, c.table ∈ p.tables) {i : ℕ} :
    db.Keeps p.home p.steps e i ↔ db.Keeps p'.home p'.steps e' i := by
  rw [hp.keeps_iff_of_relations_subset hp' h.home (fun r => (h.mem_iff r).1) howners]
  simp only [Keeps, hholds]

end Database

namespace Catalog

variable {c : Catalog} {home : TableId} {e e' : Expr Reference}

/-! ## The answer -/

/-- **The order of terms does not matter.**  A filter that is answered has the same answer with its
terms moved. -/
theorem filterExpr_of_reordered (hc : c.Reachable) (h : e.Reordered e') {t : Table}
    (ht : (c.filterExpr home e).result = .ok t) : (c.filterExpr home e').result = .ok t := by
  obtain ⟨f, p, hf, hp, hevaluate⟩ := filterExpr_eq_ok_iff.1 ht
  obtain ⟨hevaluate, frame, hframe, hlimit⟩ := Database.evaluate_limit_iff.1 hevaluate
  have hs : c.database.schema.Closed := hc.closed.schema
  have hsound := (Database.bindFilter_sound hf).2
  obtain ⟨f', hf', halike, hholds⟩ := Database.exists_bindFilter_of_reordered h hf
  have hsound' := (Database.bindFilter_sound hf').2
  obtain ⟨p', hp', hplans⟩ := halike.exists_plan hs hc.closed.names hsound hsound' hp
  have hrunnable := runnable_of_plan hs hsound hp
  have hrunnable' := runnable_of_plan hs hsound' hp'
  -- without a limit, both filters leave the rows that they keep
  obtain ⟨u, rows, hu, hrows, hmem, hanswer⟩ := hc.closed.exists_evaluate hf hp
  obtain ⟨u', rows', hu', hrows', hmem', hanswer'⟩ := hc.closed.exists_evaluate hf' hp'
  obtain rfl : u = u' := Option.some.inj (hu.symm.trans hu')
  obtain rfl : t = u.restrict rows := Except.ok.inj (hevaluate.symm.trans hanswer.result)
  obtain ⟨rfl, hcovers, -, -⟩ := covers_of_plan hs hsound hp
  have hsame : rows = rows' := by
    refine hrows.eq_of_mem_iff hrows' fun i => ?_
    have hkeeps : c.database.Keeps p.home p.steps f.expr i
        ↔ c.database.Keeps p'.home p'.steps f'.expr i :=
      Database.keeps_iff_of_alike hplans hrunnable hrunnable' hholds
        fun _ => owner_mem_tables hs hsound hp
    rw [hmem, hmem', hkeeps, hplans.home]
  -- and a limit is met by both
  obtain ⟨frame', hframe', hsize⟩ := hplans.exists_buildFrame hrunnable hrunnable'
    (hc.closed.registered hu hcovers.grown) hframe
  refine filterExpr_eq_ok_iff.2 ⟨f', p', hf', hp', Database.evaluate_limit_iff.2
    ⟨hsame ▸ hanswer'.result, frame', hframe', fun hsteps => ?_⟩⟩
  rw [hsize]
  exact hlimit (hplans.steps_ne_nil hsteps)

/-- The tables of `partners` and one more that is joined to `h`, with six joined rows at most. -/
def fanned : Catalog :=
  partners
    |>.withTable "p" ⟨[⟨"k", #[.integer 1, .integer 1, .integer 2]⟩,
        ⟨"z", #[.integer 1, .integer 0, .integer 1]⟩], #[0, 1, 2]⟩
    |>.withRelation ⟨0, "p", 2, "k", "k"⟩
    |>.withSettings ⟨1048576, some 6, .preferHome⟩

/-- `p.z == 1 & (o.y == 5 | self.k == 2)` -/
def fromP : Expr Reference :=
  .and [.compare ⟨.path ["p"] "z", 0⟩ .eq (.integer 1), .or [.compare ⟨.path ["o"] "y", 12⟩ .eq
    (.integer 5), .compare ⟨.home "k", 23⟩ .eq (.integer 2)]]

/-- `(self.k == 2 | o.y == 5) & p.z == 1` -/
def fromO : Expr Reference :=
  .and [.or [.compare ⟨.home "k", 23⟩ .eq (.integer 2), .compare ⟨.path ["o"] "y", 12⟩ .eq
    (.integer 5)], .compare ⟨.path ["p"] "z", 0⟩ .eq (.integer 1)]

/-- All six joined rows are made, whichever table is joined first. -/
theorem filterExpr_of_reordered_fanned :
    ∃ t, fanned.Reachable ∧ fromP.Reordered fromO
      ∧ (fanned.filterExpr 0 fromP).result = .ok t
      ∧ (fanned.filterExpr 0 fromO).result = .ok t := by
  have hreachable : fanned.Reachable :=
    .withSettings _ (.withRelation (.withTable reachable_partners _ _) _)
  have hmoved : fromP.Reordered fromO :=
    .trans (.inAnd [_] [] (.or (.swap _ _ []))) (.and (.swap _ _ []))
  have hanswer : (fanned.filterExpr 0 fromP).result
      = .ok ⟨[⟨"k", #[.integer 1, .integer 2]⟩], #[0, 1]⟩ := by cbv
  exact ⟨_, hreachable, hmoved, hanswer, filterExpr_of_reordered hreachable hmoved hanswer⟩

end Catalog

end LinkedTables
