import Mathlib
import LinkedTables.Proofs.Catalog.Parsed

/-!
# Connectives and the rows they keep

A disjunction keeps the rows that one of its terms keeps, a conjunction keeps only rows that each of
them keeps, and every row is kept by a filter or by its negation.  A conjunction may keep fewer rows
than both of its terms do, and a row may be kept by a filter and by its negation: one joined row has
to make the whole filter true, and a row of the home table stands in many.

Each of these filters is planned on its own.  What makes them comparable is that none of their
references spells out a path (`Reference.Pathless`), so that **all owners are joined over shortest
paths** and a filter with more owners is planned over more relations (`relations_subset`).  The rows
that a term keeps are then the same under the plan of the whole filter.
-/

namespace LinkedTables

/-! ## References without a path -/

/-- A reference that spells out no path: a name alone, or a name behind `self`. -/
def Reference.Pathless (r : Reference) : Prop := ∀ segments name, r.form ≠ .path segments name

/-- A filter whose references spell out no path. -/
def Expr.Pathless (e : Expr Reference) : Prop := ∀ r ∈ e.columns, r.Pathless

namespace Database

variable {db : Database} {home : TableId} {rule : UnqualifiedRule} {e : Expr Reference}

lemma path_eq_nil_of_bind {r : Reference} {b : Binding} (hr : r.Pathless)
    (h : db.bind home rule r = .ok b) : b.path = [] := by
  simp only [bind] at h
  split at h
  · rw [(bindOn_eq_ok h).2]
  · rename_i segments name hform
    exact absurd hform (hr segments name)
  · split_ifs at h
    · cases h
      rfl
    · exact (search_eq_ok h).2.1

/-- Where no reference spells out a path, no path has to be joined as it is written. -/
lemma paths_eq_nil_of_bindFilter {f : BoundFilter} (he : e.Pathless)
    (h : (db.bindFilter home rule e).result = .ok f) : f.paths = [] := by
  obtain ⟨-, hbound, rfl⟩ := bindFilter_eq_ok_iff.1 h
  refine List.eq_nil_iff_forall_not_mem.2 fun p hp => ?_
  obtain ⟨b, hb, hne, -⟩ := mem_explicitPaths.1 hp
  obtain ⟨r, hr, rfl⟩ := List.mem_map.1 hb
  obtain ⟨b, hbind⟩ := hbound r hr
  rw [bindingOf_eq hbind] at hne
  exact hne (path_eq_nil_of_bind (he r hr) hbind)

end Database

/-! ## Plans without explicit paths -/

section

variable {db : Database} {home : TableId} {f f' : BoundFilter} {p p' : JoinPlan}

lemma BoundFilter.unforked_of_paths_eq_nil (hf : f.paths = []) : f.Unforked home := by
  constructor <;> simp [BoundFilter.hops_eq_nil hf]

/-- Without explicit paths, a filter with more owners is planned over more relations. -/
lemma relations_subset (hs : db.schema.Closed) (hpaths : f.paths = []) (hpaths' : f'.paths = [])
    (howners : ∀ id ∈ f.owners, id ∈ f'.owners) (hp : db.schema.plan home f = .ok p)
    (hp' : db.schema.plan home f' = .ok p') : ∀ r ∈ p.relations, r ∈ p'.relations := by
  intro r hr
  obtain ⟨owner, howner, hpath⟩ := (mem_relations_iff_of_paths_eq_nil hs hpaths hp).1 hr
  exact (mem_relations_iff_of_paths_eq_nil hs hpaths' hp').2 ⟨owner, howners owner howner, hpath⟩

end

/-! ## Connectives on one plan -/

namespace Database

variable {db : Database} {home : TableId} {steps : List JoinStep} {i : ℕ}

lemma keeps_or_iff {terms : List (Expr BoundColumn)} :
    db.Keeps home steps (.or terms) i ↔ ∃ term ∈ terms, db.Keeps home steps term i := by
  simp only [Keeps, Expr.holds_or_iff]
  constructor
  · rintro ⟨s, hi, hfollows, term, hterm, htrue⟩
    exact ⟨term, hterm, s, hi, hfollows, htrue⟩
  · rintro ⟨term, hterm, s, hi, hfollows, htrue⟩
    exact ⟨s, hi, hfollows, term, hterm, htrue⟩

lemma keeps_of_and {terms : List (Expr BoundColumn)} (h : db.Keeps home steps (.and terms) i) :
    ∀ term ∈ terms, db.Keeps home steps term i := by
  intro term hterm
  obtain ⟨s, hi, hfollows, htrue⟩ := h
  exact ⟨s, hi, hfollows, Expr.holds_and_iff.1 htrue term hterm⟩

/-- One of the joined rows of a row decides the filter. -/
lemma keeps_or_keeps_not {p : JoinPlan} (hp : p.Runnable) (e : Expr BoundColumn) (i : ℕ) :
    db.Keeps p.home p.steps e i ∨ db.Keeps p.home p.steps (.not e) i := by
  obtain ⟨s, hi, hfollows⟩ := hp.exists_assignment db i
  by_cases htrue : e.holds (db.read s) = true
  · exact Or.inl ⟨s, hi, hfollows, htrue⟩
  · exact Or.inr ⟨s, hi, hfollows, Expr.holds_not_iff.2 htrue⟩

end Database

namespace Catalog

variable {c : Catalog} {home : TableId} {e e' : Expr Reference}

/-! ## Filters and their parts -/

/-- The references of a filter can be bound. -/
def Binds (c : Catalog) (home : TableId) (e : Expr Reference) : Prop :=
  ∃ f, (c.database.bindFilter home c.settings.unqualified e).result = .ok f

/-- A filter with its columns bound. -/
def boundExpr (c : Catalog) (home : TableId) (e : Expr Reference) : Expr BoundColumn :=
  e.mapColumns fun r => (c.database.bindingOf home c.settings.unqualified r).column

lemma binds_iff : c.Binds home e ↔ (∃ t, c.database.table home = .ok t)
    ∧ ∀ r ∈ e.columns, ∃ b, c.database.bind home c.settings.unqualified r = .ok b := by
  simp only [Binds, Database.bindFilter_eq_ok_iff]
  constructor
  · rintro ⟨f, ht, hbound, -⟩
    exact ⟨ht, hbound⟩
  · rintro ⟨ht, hbound⟩
    exact ⟨_, ht, hbound, rfl⟩

lemma Binds.of_columns_subset (h : c.Binds home e') (hpart : e.columns ⊆ e'.columns) :
    c.Binds home e := by
  rw [binds_iff] at h ⊢
  exact ⟨h.1, fun r hr => h.2 r (hpart hr)⟩

/-- A filter that spells out no path is planned if its references can be bound. -/
lemma Binds.exists_plan (hc : c.Closed) (he : e.Pathless) (h : c.Binds home e) :
    ∃ f p, (c.database.bindFilter home c.settings.unqualified e).result = .ok f
      ∧ c.schema.plan home f = .ok p := by
  obtain ⟨f, hf⟩ := h
  have hpaths := Database.paths_eq_nil_of_bindFilter he hf
  obtain ⟨p, hp⟩ := LinkedTables.exists_plan hc.schema (Database.bindFilter_sound hf).2
    (BoundFilter.unforked_of_paths_eq_nil hpaths)
  exact ⟨f, p, hf, hp⟩

/-- And it is answered, if joined rows are not limited. -/
lemma Binds.exists_leaves (hc : c.Closed) (hlimit : c.settings.maxFrameRows = none)
    (he : e.Pathless) (h : c.Binds home e) {t : Table} (ht : c.table? home = some t) :
    ∃ rows, c.Leaves home e t rows := by
  obtain ⟨f, p, hf, hp⟩ := h.exists_plan hc he
  obtain ⟨t', rows, ht', hleaves⟩ := hc.exists_leaves hlimit hf hp
  rw [ht] at ht'
  cases ht'
  exact ⟨rows, hleaves⟩

/-- **One plan does for all parts of a filter**: each of them keeps the same rows under it as on its
own. -/
theorem exists_common_plan (hc : c.Closed) (he' : e'.Pathless) (h : c.Binds home e') :
    ∃ p : JoinPlan, p.home = home ∧ p.Runnable ∧ ∀ e : Expr Reference, e.columns ⊆ e'.columns →
      ∀ i, c.Keeps home e i ↔ c.database.Keeps home p.steps (c.boundExpr home e) i := by
  obtain ⟨f', p', hf', hp'⟩ := h.exists_plan hc he'
  have hsound' := (Database.bindFilter_sound hf').2
  have hrunnable' := runnable_of_plan hc.schema hsound' hp'
  have hhome' := (covers_of_plan hc.schema hsound' hp').1
  refine ⟨p', hhome', hrunnable', ?_⟩
  intro e hpart i
  have he : e.Pathless := fun r hr => he' r (hpart hr)
  obtain ⟨f, p, hf, hp⟩ := (h.of_columns_subset hpart).exists_plan hc he
  have hsound := (Database.bindFilter_sound hf).2
  have hhome := (covers_of_plan hc.schema hsound hp).1
  have hexpr : f.expr = c.boundExpr home e := by
    obtain ⟨-, -, rfl⟩ := Database.bindFilter_eq_ok_iff.1 hf
    rfl
  have howners : ∀ id ∈ f.owners, id ∈ f'.owners := by
    intro id hid
    obtain ⟨-, -, rfl⟩ := Database.bindFilter_eq_ok_iff.1 hf
    obtain ⟨-, -, rfl⟩ := Database.bindFilter_eq_ok_iff.1 hf'
    simp only [BoundFilter.mem_owners, Expr.columns_mapColumns, List.mem_map] at hid ⊢
    obtain ⟨col, ⟨r, hr, rfl⟩, rfl⟩ := hid
    exact ⟨_, ⟨r, hpart hr, rfl⟩, rfl⟩
  have hsub := relations_subset hc.schema (Database.paths_eq_nil_of_bindFilter he hf)
    (Database.paths_eq_nil_of_bindFilter he' hf') howners hp hp'
  have hcolumns : ∀ col ∈ f.expr.columns, col.table ∈ p.tables :=
    fun _ => owner_mem_tables hc.schema hsound hp
  have hkeeps : c.database.Keeps p.home p.steps f.expr i
      ↔ c.database.Keeps p'.home p'.steps f.expr i :=
    (runnable_of_plan hc.schema hsound hp).keeps_iff_of_relations_subset hrunnable'
      (hhome.trans hhome'.symm) hsub hcolumns
  rw [keeps_iff hf hp, ← hexpr]
  rwa [hhome, hhome'] at hkeeps

/-! ## Connectives -/

/-- **Connectives are operations on the rows kept.**  All filters that two filters without explicit
paths are terms of are answered.  Their disjunction leaves the rows that one of the two leaves, and
their conjunction only rows that both leave; every row is left by a filter or by its negation. -/
theorem leaves_connectives (hc : c.Reachable) (hlimit : c.settings.maxFrameRows = none)
    {A B : Expr Reference} (hA : A.Pathless) (hB : B.Pathless) (hbindsA : c.Binds home A)
    (hbindsB : c.Binds home B) :
    ∃ t, ∃ a b either both other : List ℕ, c.table? home = some t
      ∧ c.Leaves home A t a ∧ c.Leaves home B t b
      ∧ c.Leaves home (.or [A, B]) t either ∧ (∀ i, i ∈ either ↔ i ∈ a ∨ i ∈ b)
      ∧ c.Leaves home (.and [A, B]) t both ∧ (∀ i ∈ both, i ∈ a ∧ i ∈ b)
      ∧ c.Leaves home (.not A) t other ∧ ∀ i < t.rowCount, i ∈ a ∨ i ∈ other := by
  -- all five filters are parts of the disjunction
  have hwhole : (Expr.or [A, B]).Pathless ∧ c.Binds home (.or [A, B]) := by
    rw [binds_iff] at hbindsA hbindsB ⊢
    simp only [Expr.Pathless, Expr.columns_or, List.flatMap_cons, List.flatMap_nil,
      List.append_nil, List.mem_append]
    exact ⟨fun r hr => hr.elim (hA r) (hB r), hbindsA.1,
      fun r hr => hr.elim (hbindsA.2 r) (hbindsB.2 r)⟩
  have hparts : A.columns ⊆ (Expr.or [A, B]).columns ∧ B.columns ⊆ (Expr.or [A, B]).columns
      ∧ (Expr.and [A, B]).columns ⊆ (Expr.or [A, B]).columns := by
    simp
  obtain ⟨hpartA, hpartB, hpartAnd⟩ := hparts
  obtain ⟨p, rfl, hrunnable, hkeeps⟩ := exists_common_plan hc.closed hwhole.1 hwhole.2
  obtain ⟨t, ht⟩ := (binds_iff.1 hbindsA).1
  have ht' : c.table? p.home = some t := Database.table_eq_ok_iff.1 ht
  have hleaves : ∀ e : Expr Reference, e.columns ⊆ (Expr.or [A, B]).columns →
      ∃ rows, c.Leaves p.home e t rows := fun e hpart =>
    (hwhole.2.of_columns_subset hpart).exists_leaves hc.closed hlimit
      (fun r hr => hwhole.1 r (hpart hr)) ht'
  obtain ⟨a, ha⟩ := hleaves A hpartA
  obtain ⟨b, hb⟩ := hleaves B hpartB
  obtain ⟨either, heither⟩ := hleaves (.or [A, B]) fun _ => id
  obtain ⟨both, hboth⟩ := hleaves (.and [A, B]) hpartAnd
  obtain ⟨other, hother⟩ := hleaves (.not A) hpartA
  refine ⟨t, a, b, either, both, other, ht', ha, hb, heither, ?_, hboth, ?_, hother, ?_⟩
  · intro i
    rw [heither.mem_iff, ha.mem_iff, hb.mem_iff, hkeeps _ (fun _ => id), hkeeps A hpartA,
      hkeeps B hpartB, boundExpr, Expr.mapColumns_or, Database.keeps_or_iff]
    simp [boundExpr, and_or_left]
  · intro i hi
    rw [hboth.mem_iff, hkeeps _ hpartAnd, boundExpr, Expr.mapColumns_and] at hi
    have hterms := Database.keeps_of_and hi.2
    rw [ha.mem_iff, hb.mem_iff, hkeeps A hpartA, hkeeps B hpartB]
    exact ⟨⟨hi.1, hterms _ (by simp [boundExpr])⟩, hi.1, hterms _ (by simp [boundExpr])⟩
  · intro i hi
    rw [ha.mem_iff, hother.mem_iff, hkeeps A hpartA, hkeeps (.not A) hpartA, boundExpr, boundExpr,
      Expr.mapColumns_not]
    exact (Database.keeps_or_keeps_not hrunnable _ i).imp (fun h => ⟨hi, h⟩) fun h => ⟨hi, h⟩

/-- The cell of `y` is a number. -/
def yIs (n : ℕ) : Expr Reference := .compare ⟨.plain "y", 0⟩ .eq (.integer (.ofNat n))

/-- The first row has a partner for each of `y == 5` and `y == 7`, but none for both. -/
theorem leaves_connectives_partners :
    partners.Reachable ∧ partners.settings.maxFrameRows = none
      ∧ (yIs 5).Pathless ∧ (yIs 7).Pathless ∧ partners.Binds 0 (yIs 5) ∧ partners.Binds 0 (yIs 7)
      ∧ ∃ t, ∃ a b either both other : List ℕ, partners.table? 0 = some t
        ∧ partners.Leaves 0 (yIs 5) t a ∧ partners.Leaves 0 (yIs 7) t b
        ∧ partners.Leaves 0 (.or [yIs 5, yIs 7]) t either ∧ (∀ i, i ∈ either ↔ i ∈ a ∨ i ∈ b)
        ∧ partners.Leaves 0 (.and [yIs 5, yIs 7]) t both ∧ (∀ i ∈ both, i ∈ a ∧ i ∈ b)
        ∧ partners.Leaves 0 (.not (yIs 5)) t other ∧ ∀ i < t.rowCount, i ∈ a ∨ i ∈ other := by
  have hpathless : ∀ n, (yIs n).Pathless := by
    simp [Expr.Pathless, Reference.Pathless, yIs]
  have hbinds : partners.Binds 0 (yIs 5) ∧ partners.Binds 0 (yIs 7) :=
    ⟨⟨⟨.compare ⟨1, "y"⟩ .eq (.integer 5), []⟩, by cbv⟩,
      ⟨⟨.compare ⟨1, "y"⟩ .eq (.integer 7), []⟩, by cbv⟩⟩
  have hlimit : partners.settings.maxFrameRows = none := by cbv
  exact ⟨reachable_partners, hlimit, hpathless 5, hpathless 7, hbinds.1, hbinds.2,
    leaves_connectives reachable_partners hlimit (hpathless 5) (hpathless 7) hbinds.1 hbinds.2⟩

example : (partners.filterExpr 0 (.and [yIs 5, yIs 7])).result.map Table.rowIds = .ok #[] := by
  cbv

end Catalog

end LinkedTables
