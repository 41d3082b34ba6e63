import Mathlib
import LinkedTables.Proofs.Traced

/-!
# Replacing columns from left to right

`Expr.mapColumnsM` carries the effects of a function through a tree, and its steps are lost in the
recursion.  Here they are laid out again.

* **As a list.**  The new columns are what the function makes of the list of old columns, one after
  the other and with the same effects (`columns_mapColumnsM`).  Where the function can fail, the
  replacement fails as the first column does that fails (`mapColumnsM_eq_error_iff`).
* **As a tree.**  `Expr.Parallel` relates two filters that have the same shape, operators and
  literals, and columns that are related one by one.  A filter is parallel to what becomes of it
  (`parallel_mapColumns`), and parallel filters are treated alike by functions that treat related
  columns alike (`Parallel.mapColumnsM_eq`).
-/

namespace LinkedTables

namespace Expr

variable {γ δ : Type}

/-! ## The list of columns -/

section

variable {m : Type → Type} [Monad m] [LawfulMonad m]

/-- The terms of a chain are walked through one after the other. -/
lemma mapAllColumnsM_eq_mapM (f : γ → m δ) (terms : List (Expr γ)) (done : List (Expr δ)) :
    mapAllColumnsM f done terms = (done.reverse ++ ·) <$> terms.mapM (mapColumnsM f) := by
  induction terms generalizing done with
  | nil => simp [mapAllColumnsM]
  | cons term rest ih => simp [mapAllColumnsM, ih]

lemma mapColumnsM_compare (f : γ → m δ) (column : γ) (op : Comparator) (literal : Cell) :
    (compare column op literal).mapColumnsM f = (compare · op literal) <$> f column := by
  rw [mapColumnsM, bind_pure_comp]

lemma mapColumnsM_and (f : γ → m δ) (terms : List (Expr γ)) :
    (and terms).mapColumnsM f = and <$> terms.mapM (mapColumnsM f) := by
  simp [mapColumnsM, mapAllColumnsM_eq_mapM]

lemma mapColumnsM_or (f : γ → m δ) (terms : List (Expr γ)) :
    (or terms).mapColumnsM f = or <$> terms.mapM (mapColumnsM f) := by
  simp [mapColumnsM, mapAllColumnsM_eq_mapM]

lemma mapColumnsM_not (f : γ → m δ) (term : Expr γ) :
    (not term).mapColumnsM f = not <$> term.mapColumnsM f := by
  rw [mapColumnsM, bind_pure_comp]

/-- **The columns are visited in the order of the list**, each once, and the effects are those of a
walk over it. -/
theorem columns_mapColumnsM (f : γ → m δ) (e : Expr γ) :
    columns <$> e.mapColumnsM f = e.columns.mapM f := by
  have hall : ∀ terms : List (Expr γ),
      (∀ term ∈ terms, columns <$> term.mapColumnsM f = term.columns.mapM f) →
      (List.flatMap columns) <$> terms.mapM (mapColumnsM f) = (terms.flatMap columns).mapM f := by
    intro terms hterms
    induction terms with
    | nil => simp
    | cons term rest ih =>
      rw [List.flatMap_cons, List.mapM_append, ← hterms term (List.mem_cons_self ..),
        ← ih fun t ht => hterms t (List.mem_cons_of_mem _ ht)]
      simp
  induction e with
  | compare column op literal => simp [mapColumnsM_compare]
  | and terms ih =>
    rw [columns_and, ← hall terms ih, mapColumnsM_and]
    simp
  | or terms ih =>
    rw [columns_or, ← hall terms ih, mapColumnsM_or]
    simp
  | not term ih =>
    rw [columns_not, ← ih, mapColumnsM_not]
    simp

end

/-! ## The first column that fails -/

/-- A walk over a list ends at the first entry that fails. -/
lemma mapM_eq_error_iff {α β ε : Type} {f : α → Except ε β} {as : List α} {x : ε} :
    as.mapM f = .error x ↔ ∃ before a after, as = before ++ a :: after
      ∧ (∀ b ∈ before, ∃ y, f b = .ok y) ∧ f a = .error x := by
  constructor
  · intro h
    induction as with
    | nil => cases h
    | cons a rest ih =>
      rw [List.mapM_cons] at h
      rcases eq_error_of_bind h with h | ⟨y, hy, h⟩
      · exact ⟨[], a, rest, rfl, by simp, h⟩
      · rcases eq_error_of_bind h with h | ⟨ys, -, h⟩
        · obtain ⟨before, a', after, rfl, hbefore, hfails⟩ := ih h
          exact ⟨a :: before, a', after, rfl, List.forall_mem_cons.2 ⟨⟨y, hy⟩, hbefore⟩, hfails⟩
        · cases h
  · rintro ⟨before, a, after, rfl, hbefore, hfails⟩
    induction before with
    | nil =>
      rw [List.nil_append, List.mapM_cons, hfails]
      rfl
    | cons b before ih =>
      obtain ⟨⟨y, hy⟩, hbefore⟩ := List.forall_mem_cons.1 hbefore
      rw [List.cons_append, List.mapM_cons, hy]
      show (before ++ a :: after).mapM f >>= _ = _
      rw [ih hbefore]
      rfl

/-- **A replacement fails** with the error of the first column that fails. -/
theorem mapColumnsM_eq_error_iff {ε : Type} {f : γ → Except ε δ} {e : Expr γ} {x : ε} :
    e.mapColumnsM f = .error x ↔ ∃ before c after, e.columns = before ++ c :: after
      ∧ (∀ b ∈ before, ∃ d, f b = .ok d) ∧ f c = .error x := by
  rw [← mapM_eq_error_iff, ← columns_mapColumnsM]
  cases e.mapColumnsM f with
  | error y => simp [Functor.map, Except.map]
  | ok e' => exact iff_of_false nofun nofun

/-! ## Filters that differ in their columns -/

/-- Two filters of one shape, with the same operators and literals, whose columns are related one by
one. -/
inductive Parallel (R : γ → δ → Prop) : Expr γ → Expr δ → Prop
  | compare {c : γ} {d : δ} (op : Comparator) (literal : Cell) :
      R c d → Parallel R (.compare c op literal) (.compare d op literal)
  | and {terms : List (Expr γ)} {terms' : List (Expr δ)} :
      List.Forall₂ (Parallel R) terms terms' → Parallel R (.and terms) (.and terms')
  | or {terms : List (Expr γ)} {terms' : List (Expr δ)} :
      List.Forall₂ (Parallel R) terms terms' → Parallel R (.or terms) (.or terms')
  | not {term : Expr γ} {term' : Expr δ} :
      Parallel R term term' → Parallel R (.not term) (.not term')

variable {R : γ → δ → Prop} {e : Expr γ} {e' : Expr δ}

/-- To show something of filters that are parallel, show it of comparisons, of chains whose terms
have it one by one, and of negations. -/
@[elab_as_elim]
lemma Parallel.induction {motive : Expr γ → Expr δ → Prop}
    (compare : ∀ c d op literal, R c d → motive (.compare c op literal) (.compare d op literal))
    (and : ∀ terms terms', List.Forall₂ motive terms terms' → motive (.and terms) (.and terms'))
    (or : ∀ terms terms', List.Forall₂ motive terms terms' → motive (.or terms) (.or terms'))
    (not : ∀ term term', motive term term' → motive (.not term) (.not term'))
    (h : Parallel R e e') : motive e e' :=
  Parallel.rec (motive_1 := fun e e' _ => motive e e')
    (motive_2 := fun terms terms' _ => List.Forall₂ motive terms terms')
    (fun op literal h => compare _ _ op literal h) (fun _ ih => and _ _ ih)
    (fun _ ih => or _ _ ih) (fun _ ih => not _ _ ih) .nil (fun _ _ ih ih' => .cons ih ih') h

/-- Replacements that agree on related columns do the same to parallel filters. -/
lemma Parallel.mapColumnsM_eq {m : Type → Type} [Monad m] [LawfulMonad m] {ε : Type} {f : γ → m ε}
    {g : δ → m ε} (hR : ∀ c d, R c d → f c = g d) (h : Parallel R e e') :
    e.mapColumnsM f = e'.mapColumnsM g := by
  have hall : ∀ {terms : List (Expr γ)} {terms' : List (Expr δ)},
      List.Forall₂ (fun e e' => e.mapColumnsM f = e'.mapColumnsM g) terms terms' →
      terms.mapM (mapColumnsM f) = terms'.mapM (mapColumnsM g) := by
    intro terms terms' h
    induction h with
    | nil => rfl
    | cons h _ ih => rw [List.mapM_cons, List.mapM_cons, h, ih]
  refine h.induction ?compare ?and ?or ?not
  case compare =>
    intro c d op literal h
    rw [mapColumnsM_compare, mapColumnsM_compare, hR c d h]
  case and =>
    intro terms terms' ih
    rw [mapColumnsM_and, mapColumnsM_and, hall ih]
  case or =>
    intro terms terms' ih
    rw [mapColumnsM_or, mapColumnsM_or, hall ih]
  case not =>
    intro term term' ih
    rw [mapColumnsM_not, mapColumnsM_not, ih]

/-- A filter is parallel to what becomes of it when its columns are replaced. -/
lemma parallel_mapColumns {g : γ → δ} (h : ∀ c ∈ e.columns, R c (g c)) :
    Parallel R e (e.mapColumns g) := by
  induction e with
  | compare column op literal =>
    rw [mapColumns_compare]
    exact .compare op literal (h column (by simp))
  | and terms ih =>
    rw [mapColumns_and]
    refine .and (List.forall₂_map_right_iff.2 (List.forall₂_same.2 fun term ht => ?_))
    exact ih term ht fun c hc => h c (mem_columns_and ht hc)
  | or terms ih =>
    rw [mapColumns_or]
    refine .or (List.forall₂_map_right_iff.2 (List.forall₂_same.2 fun term ht => ?_))
    exact ih term ht fun c hc => h c (mem_columns_or ht hc)
  | not term ih =>
    rw [mapColumns_not]
    exact .not (ih h)

lemma mapColumns_id (e : Expr γ) : e.mapColumns (fun c => c) = e := by
  have hall : ∀ terms : List (Expr γ), (∀ term ∈ terms, term.mapColumns (fun c => c) = term) →
      terms.map (mapColumns fun c => c) = terms :=
    fun terms h => (List.map_congr_left h).trans terms.map_id'
  induction e with
  | compare column op literal => rw [mapColumns_compare]
  | and terms ih => rw [mapColumns_and, hall terms ih]
  | or terms ih => rw [mapColumns_or, hall terms ih]
  | not term ih => rw [mapColumns_not, ih]

/-- If each column is related to one other only, a filter is parallel to one other only. -/
lemma Parallel.eq_mapColumns {g : γ → δ} (hR : ∀ c d, R c d → g c = d) (h : Parallel R e e') :
    e.mapColumns g = e' :=
  (h.mapColumnsM_eq (m := Id) hR).trans e'.mapColumns_id

end Expr

end LinkedTables
