import Mathlib
import LinkedTables.Proofs.Stateful
import LinkedTables.Proofs.Filter.Traversal

/-!
# Replacing columns by a function that keeps a state

The function that replaces the columns of a filter may remember what it has seen, and may fail.
What it remembers is then there for the next column, and for the caller also after a failure.

* **Over a list.**  `Threads` says that a function succeeds on one entry after the other, each time
  in the state that the entry before has left.  A walk over a list either threads all of it or
  threads what stands before the first entry that fails (`resultFrom_mapM_ok_iff`,
  `resultFrom_mapM_error_iff`).
* **Over a filter.**  The columns of a filter are walked through like their list, so the same holds
  of a replacement (`resultFrom_mapColumnsM_ok`, `resultFrom_mapColumnsM_error_iff`).  When it
  succeeds, the filter has kept its shape, and its shape and its columns are all of a filter
  (`Parallel.eq_of_columns_eq`).
* **Who is asked.**  `recorded` writes down what a function is called on.  The record of a
  replacement is the list of columns up to the one that fails, and that one is in it
  (`mapColumnsM_visits_columns`).
-/

namespace LinkedTables

namespace Stateful

variable {σ ε α β : Type}

/-- What a computation answers in a state and the state that it leaves, of which nothing else may
come. -/
def resultFrom (x : Stateful Id σ ε α) (st : σ) : Except ε α × σ := (x.runFrom st).run

lemma resultFrom_bind (x : Stateful Id σ ε α) (f : α → Stateful Id σ ε β) (st : σ) :
    (x >>= f).resultFrom st = match x.resultFrom st with
      | (.ok a, st₁) => (f a).resultFrom st₁
      | (.error e, st₁) => (.error e, st₁) := by
  rw [resultFrom, runFrom_bind, resultFrom]
  rcases x.runFrom st with ⟨_ | _, _⟩ <;> rfl

lemma resultFrom_bind_ok_iff {x : Stateful Id σ ε α} {f : α → Stateful Id σ ε β} {st st' : σ}
    {b : β} :
    (x >>= f).resultFrom st = (.ok b, st')
      ↔ ∃ a st₁, x.resultFrom st = (.ok a, st₁) ∧ (f a).resultFrom st₁ = (.ok b, st') := by
  rw [resultFrom_bind]
  rcases x.resultFrom st with ⟨_ | a, st₁⟩ <;> simp

lemma resultFrom_bind_error_iff {x : Stateful Id σ ε α} {f : α → Stateful Id σ ε β} {st st' : σ}
    {e : ε} :
    (x >>= f).resultFrom st = (.error e, st') ↔ x.resultFrom st = (.error e, st')
      ∨ ∃ a st₁, x.resultFrom st = (.ok a, st₁) ∧ (f a).resultFrom st₁ = (.error e, st') := by
  rw [resultFrom_bind]
  rcases x.resultFrom st with ⟨_ | a, st₁⟩ <;> simp

lemma resultFrom_map (x : Stateful Id σ ε α) (g : α → β) (st : σ) :
    (g <$> x).resultFrom st = ((x.resultFrom st).1.map g, (x.resultFrom st).2) := by
  rw [← bind_pure_comp, resultFrom_bind]
  rcases x.resultFrom st with ⟨_ | _, _⟩ <;> rfl

lemma resultFrom_map_ok_iff {x : Stateful Id σ ε α} {g : α → β} {st st' : σ} {b : β} :
    (g <$> x).resultFrom st = (.ok b, st') ↔ ∃ a, x.resultFrom st = (.ok a, st') ∧ g a = b := by
  rw [resultFrom_map]
  rcases x.resultFrom st with ⟨_ | a, st₁⟩ <;> simp [Except.map, and_comm]

lemma resultFrom_map_error_iff {x : Stateful Id σ ε α} {g : α → β} {st st' : σ} {e : ε} :
    (g <$> x).resultFrom st = (.error e, st') ↔ x.resultFrom st = (.error e, st') := by
  rw [resultFrom_map]
  rcases x.resultFrom st with ⟨_ | a, st₁⟩ <;> simp [Except.map]

/-! ## Walks over a list -/

/-- `f` succeeds on one entry after the other, each time in the state that the entry before has
left. -/
inductive Threads (f : α → Stateful Id σ ε β) : σ → List α → List β → σ → Prop
  | nil (st : σ) : Threads f st [] [] st
  | cons {st st₁ st' : σ} {a : α} {b : β} {as : List α} {bs : List β} :
      (f a).resultFrom st = (.ok b, st₁) → Threads f st₁ as bs st' →
      Threads f st (a :: as) (b :: bs) st'

variable {f : α → Stateful Id σ ε β} {st st' : σ} {as : List α} {bs : List β}

/-- A walk that succeeds has threaded the whole list. -/
lemma resultFrom_mapM_ok_iff :
    (as.mapM f).resultFrom st = (.ok bs, st') ↔ Threads f st as bs st' := by
  constructor
  · intro h
    induction as generalizing st bs with
    | nil =>
      cases h
      exact .nil _
    | cons a rest ih =>
      rw [List.mapM_cons] at h
      obtain ⟨b, st₁, hfirst, h⟩ := resultFrom_bind_ok_iff.1 h
      obtain ⟨bs, st₂, hrest, h⟩ := resultFrom_bind_ok_iff.1 h
      cases h
      exact .cons hfirst (ih hrest)
  · intro h
    induction h with
    | nil => rfl
    | cons hfirst _ ih =>
      rw [List.mapM_cons]
      exact resultFrom_bind_ok_iff.2 ⟨_, _, hfirst, resultFrom_bind_ok_iff.2 ⟨_, _, ih, rfl⟩⟩

/-- A walk that fails has threaded what stands before the entry at which it does. -/
lemma resultFrom_mapM_error_iff {e : ε} : (as.mapM f).resultFrom st = (.error e, st')
    ↔ ∃ before a after bs st₁, as = before ++ a :: after ∧ Threads f st before bs st₁
      ∧ (f a).resultFrom st₁ = (.error e, st') := by
  constructor
  · intro h
    induction as generalizing st with
    | nil => cases h
    | cons a rest ih =>
      rw [List.mapM_cons] at h
      rcases resultFrom_bind_error_iff.1 h with h | ⟨b, st₁, hfirst, h⟩
      · exact ⟨[], a, rest, [], st, rfl, .nil st, h⟩
      · rcases resultFrom_bind_error_iff.1 h with h | ⟨_, _, -, h⟩
        · obtain ⟨before, a', after, bs, st₂, rfl, hbefore, hfails⟩ := ih h
          exact ⟨a :: before, a', after, b :: bs, st₂, rfl, .cons hfirst hbefore, hfails⟩
        · cases h
  · rintro ⟨before, a, after, bs, st₁, rfl, hbefore, hfails⟩
    induction hbefore with
    | nil =>
      rw [List.nil_append, List.mapM_cons]
      exact resultFrom_bind_error_iff.2 (.inl hfails)
    | cons hfirst _ ih =>
      rw [List.cons_append, List.mapM_cons]
      exact resultFrom_bind_error_iff.2
        (.inr ⟨_, _, hfirst, resultFrom_bind_error_iff.2 (.inl (ih hfails))⟩)

/-! ## The record of the calls -/

/-- Do what `f` does, and write down what it is called on. -/
def recorded (f : α → Stateful Id σ ε β) (a : α) : Stateful Id (σ × List α) ε β :=
  ExceptT.mk fun st =>
    let result := (f a).resultFrom st.1
    (result.1, (result.2, st.2 ++ [a]))

lemma resultFrom_recorded (f : α → Stateful Id σ ε β) (a : α) (st : σ) (record : List α) :
    (recorded f a).resultFrom (st, record)
      = (((f a).resultFrom st).1, (((f a).resultFrom st).2, record ++ [a])) := rfl

/-- To write the calls down changes nothing else. -/
lemma Threads.recorded (h : Threads f st as bs st') (record : List α) :
    Threads (recorded f) (st, record) as bs (st', record ++ as) := by
  induction h generalizing record with
  | nil st =>
    rw [List.append_nil]
    exact .nil _
  | @cons st st₁ st' a b as bs hfirst _ ih =>
    rw [List.append_cons]
    refine .cons ?_ (ih (record ++ [a]))
    rw [resultFrom_recorded, hfirst]

end Stateful

namespace Expr

open Stateful

variable {γ δ σ ε : Type} {f : γ → Stateful Id σ ε δ} {e : Expr γ} {e' : Expr δ} {st st' : σ}

/-! ## One shape -/

lemma Parallel.length_columns {R : γ → δ → Prop} (h : Parallel R e e') :
    e.columns.length = e'.columns.length := by
  have hall : ∀ {terms : List (Expr γ)} {terms' : List (Expr δ)},
      List.Forall₂ (fun e e' => e.columns.length = e'.columns.length) terms terms' →
      (terms.flatMap columns).length = (terms'.flatMap columns).length := by
    intro terms terms' h
    induction h with
    | nil => rfl
    | cons h _ ih => rw [List.flatMap_cons, List.flatMap_cons, List.length_append,
        List.length_append, h, ih]
  refine h.induction ?compare ?and ?or ?not
  case compare => intros; rfl
  case and =>
    intro terms terms' ih
    rw [columns_and, columns_and, hall ih]
  case or =>
    intro terms terms' ih
    rw [columns_or, columns_or, hall ih]
  case not =>
    intro term term' ih
    rw [columns_not, columns_not, ih]

/-- The shape of a filter and its columns are all of it. -/
lemma Parallel.eq_of_columns_eq {R S : γ → δ → Prop} {e'' : Expr δ} (h : Parallel R e e')
    (h' : Parallel S e e'') (hcolumns : e'.columns = e''.columns) : e' = e'' := by
  -- the columns of a term are as many on both sides, so each term has its own share of them
  have hall : ∀ {terms : List (Expr γ)} {terms' terms'' : List (Expr δ)},
      (∀ term ∈ terms, ∀ {term' term''}, Parallel R term term' → Parallel S term term'' →
        term'.columns = term''.columns → term' = term'') →
      List.Forall₂ (Parallel R) terms terms' → List.Forall₂ (Parallel S) terms terms'' →
      terms'.flatMap columns = terms''.flatMap columns → terms' = terms'' := by
    intro terms terms' terms'' hterms h h' hcolumns
    induction h generalizing terms'' with
    | nil =>
      cases h'
      rfl
    | cons hfirst _ ih =>
      cases h' with
      | cons hfirst' hrest' =>
        obtain ⟨hterm, hterms⟩ := List.forall_mem_cons.1 hterms
        have hlength := hfirst.length_columns.symm.trans hfirst'.length_columns
        obtain ⟨heq, hcolumns⟩ := List.append_inj hcolumns hlength
        rw [hterm hfirst hfirst' heq, ih hterms hrest' hcolumns]
  induction e generalizing e' e'' with
  | compare column op literal =>
    cases h with
    | compare =>
      cases h' with
      | compare => rw [List.singleton_inj.1 hcolumns]
  | and terms ih =>
    cases h with
    | and h =>
      cases h' with
      | and h' => rw [hall (fun term ht => ih term ht) h h' (by simpa using hcolumns)]
  | or terms ih =>
    cases h with
    | or h =>
      cases h' with
      | or h' => rw [hall (fun term ht => ih term ht) h h' (by simpa using hcolumns)]
  | not term ih =>
    cases h with
    | not h =>
      cases h' with
      | not h' => rw [ih h h' hcolumns]

/-! ## Replacements -/

/-- A filter keeps its shape, its operators and its literals. -/
lemma parallel_of_resultFrom_mapColumnsM (h : (e.mapColumnsM f).resultFrom st = (.ok e', st')) :
    Parallel (fun _ _ => True) e e' := by
  have hall : ∀ {terms : List (Expr γ)} {terms' : List (Expr δ)} {st st' : σ},
      (∀ term ∈ terms, ∀ {term' st st'}, (term.mapColumnsM f).resultFrom st = (.ok term', st') →
        Parallel (fun _ _ => True) term term') →
      Threads (mapColumnsM f) st terms terms' st' →
      List.Forall₂ (Parallel fun _ _ => True) terms terms' := by
    intro terms terms' st st' hterms h
    induction h with
    | nil => exact .nil
    | cons hfirst _ ih =>
      obtain ⟨hterm, hterms⟩ := List.forall_mem_cons.1 hterms
      exact .cons (hterm hfirst) (ih hterms)
  induction e generalizing e' st st' with
  | compare column op literal =>
    rw [mapColumnsM_compare] at h
    obtain ⟨_, -, rfl⟩ := resultFrom_map_ok_iff.1 h
    exact .compare op literal trivial
  | and terms ih =>
    rw [mapColumnsM_and] at h
    obtain ⟨_, hterms, rfl⟩ := resultFrom_map_ok_iff.1 h
    exact .and (hall ih (resultFrom_mapM_ok_iff.1 hterms))
  | or terms ih =>
    rw [mapColumnsM_or] at h
    obtain ⟨_, hterms, rfl⟩ := resultFrom_map_ok_iff.1 h
    exact .or (hall ih (resultFrom_mapM_ok_iff.1 hterms))
  | not term ih =>
    rw [mapColumnsM_not] at h
    obtain ⟨_, hterm, rfl⟩ := resultFrom_map_ok_iff.1 h
    exact .not (ih hterm)

/-- A replacement that succeeds has threaded the columns, and its results are the new ones. -/
lemma resultFrom_mapColumnsM_ok (h : (e.mapColumnsM f).resultFrom st = (.ok e', st')) :
    Threads f st e.columns e'.columns st' := by
  rw [← resultFrom_mapM_ok_iff, ← columns_mapColumnsM]
  exact resultFrom_map_ok_iff.2 ⟨e', h, rfl⟩

/-- A replacement that fails has threaded the columns before the one at which it does. -/
lemma resultFrom_mapColumnsM_error_iff {x : ε} : (e.mapColumnsM f).resultFrom st = (.error x, st')
    ↔ ∃ before c after ds st₁, e.columns = before ++ c :: after ∧ Threads f st before ds st₁
      ∧ (f c).resultFrom st₁ = (.error x, st') := by
  rw [← resultFrom_mapM_error_iff, ← columns_mapColumnsM, resultFrom_map_error_iff]

/-- **The columns are visited from left to right**, up to the first one that fails.  If none does,
`f` is called on each column in the state that the one before has left, and the answer is the filter
of the same shape with the results for columns.  If one does, nothing behind it is visited, and its
error is the answer. -/
theorem mapColumnsM_visits_columns (f : γ → Stateful Id σ ε δ) (e : Expr γ) (st : σ) :
    (∃ e' st', Threads f st e.columns e'.columns st'
      ∧ (e.mapColumnsM f).resultFrom st = (.ok e', st')
      ∧ Parallel (fun _ _ => True) e e'
      ∧ (e.mapColumnsM (recorded f)).resultFrom (st, []) = (.ok e', (st', e.columns)))
    ∨ ∃ before c after ds st₁ x st', e.columns = before ++ c :: after
      ∧ Threads f st before ds st₁ ∧ (f c).resultFrom st₁ = (.error x, st')
      ∧ (e.mapColumnsM f).resultFrom st = (.error x, st')
      ∧ (e.mapColumnsM (recorded f)).resultFrom (st, []) = (.error x, (st', before ++ [c])) := by
  rcases hrun : (e.mapColumnsM f).resultFrom st with ⟨x | e', st'⟩
  case error =>
    obtain ⟨before, c, after, ds, st₁, hcolumns, hbefore, hfails⟩ :=
      resultFrom_mapColumnsM_error_iff.1 hrun
    refine .inr ⟨before, c, after, ds, st₁, x, st', hcolumns, hbefore, hfails, rfl, ?_⟩
    refine resultFrom_mapColumnsM_error_iff.2
      ⟨before, c, after, ds, (st₁, before), hcolumns, hbefore.recorded [], ?_⟩
    rw [resultFrom_recorded, hfails]
  case ok =>
    have hthreads := resultFrom_mapColumnsM_ok hrun
    have hshape := parallel_of_resultFrom_mapColumnsM hrun
    refine .inl ⟨e', st', hthreads, rfl, hshape, ?_⟩
    -- the recorded run yields a filter of that shape with these columns, and there is only one
    have hrecorded := resultFrom_mapM_ok_iff.2 (hthreads.recorded [])
    rw [← columns_mapColumnsM] at hrecorded
    obtain ⟨e'', hrun', hcolumns⟩ := resultFrom_map_ok_iff.1 hrecorded
    rw [hrun', hshape.eq_of_columns_eq (parallel_of_resultFrom_mapColumnsM hrun') hcolumns.symm,
      List.nil_append]

end Expr

end LinkedTables
