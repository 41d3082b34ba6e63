import Mathlib
import LinkedTables.Proofs.Filter.Binding
import LinkedTables.Proofs.Filter.Traversal
import LinkedTables.Proofs.Join.Minimality

/-!
# References one by one

A filter is bound in one walk over its references, which stops at the first one that cannot be bound
and gathers explicit paths on the way.  What comes out is nevertheless said of each reference on its
own, with no walk: `Database.BindsEach` says what a bound filter is made of, and
`bindFilter_iff_bindsEach` that a filter is bound to this and nothing else, or refused with the
failure of the first reference that has one.

Of the gathered paths `ListsPaths` says which they are and in which order they stand.  It is kept
from reference to reference (`ListsPaths.concat`), and rests on a path leading to one table only, so
that no path is listed for two tables.
-/

namespace LinkedTables

/-! ## Explicit paths -/

/-- One entry more is added behind the others, unless it is there. -/
lemma distinct_concat {α : Type} [DecidableEq α] (xs : List α) (x : α) :
    distinct (xs ++ [x]) = if x ∈ xs then distinct xs else distinct xs ++ [x] := by
  simp only [distinct, List.foldl_append, List.foldl_cons, List.foldl_nil, mem_foldl_distinct,
    List.not_mem_nil, false_or]
  split_ifs
  · rfl
  · rw [List.reverse_cons]

namespace Database

variable {db : Database} {home : TableId} {rule : UnqualifiedRule} {e : Expr Reference}

/-- The paths of bindings are listed each once, in the order in which they stand first, and each
with the table that it leads to. -/
structure ListsPaths (bindings : List Binding) (paths : List ExplicitPath) : Prop where
  mem_iff : ∀ p, p ∈ paths ↔
    p.path ≠ [] ∧ ∃ b ∈ bindings, b.path = p.path ∧ b.column.table = p.table
  once : (paths.map ExplicitPath.path).Nodup
  sorted : paths.Pairwise fun p q =>
    (bindings.map Binding.path).idxOf p.path < (bindings.map Binding.path).idxOf q.path

/-- What one binding more adds to the paths. -/
lemma explicitPaths_concat (bindings : List Binding) (b : Binding) :
    explicitPaths (bindings ++ [b])
      = if b.path = [] ∨ ⟨b.column.table, b.path⟩ ∈ explicitPaths bindings then
          explicitPaths bindings
        else explicitPaths bindings ++ [⟨b.column.table, b.path⟩] := by
  simp only [explicitPaths, mem_distinct, List.filterMap_append, List.filterMap_cons,
    List.filterMap_nil]
  by_cases hpath : b.path = []
  · simp [hpath]
  · simp [hpath, distinct_concat]

/-- **One binding more** leaves the paths as they are or comes last. -/
lemma ListsPaths.concat {bindings : List Binding} {paths : List ExplicitPath} {b : Binding}
    (h : ListsPaths bindings paths)
    (hends : b.path ≠ [] → ∀ b' ∈ bindings, b'.path = b.path → b'.column.table = b.column.table) :
    ListsPaths (bindings ++ [b])
      (if b.path = [] ∨ ⟨b.column.table, b.path⟩ ∈ paths then paths
        else paths ++ [⟨b.column.table, b.path⟩]) := by
  -- places in the list do not change when it grows
  have hplace : ∀ p ∈ paths, ((bindings ++ [b]).map Binding.path).idxOf p.path
      = (bindings.map Binding.path).idxOf p.path := by
    intro p hp
    obtain ⟨-, b', hb', hpath, -⟩ := (h.mem_iff p).1 hp
    rw [List.map_append, List.idxOf_append_of_mem (List.mem_map.2 ⟨b', hb', hpath⟩)]
  have hsorted : paths.Pairwise fun p q => ((bindings ++ [b]).map Binding.path).idxOf p.path
      < ((bindings ++ [b]).map Binding.path).idxOf q.path :=
    h.sorted.imp_of_mem fun hp hq hlt => by rwa [hplace _ hp, hplace _ hq]
  have hmem : ∀ p : ExplicitPath, p.path ≠ [] ∧ (∃ b' ∈ bindings ++ [b], b'.path = p.path
      ∧ b'.column.table = p.table) ↔ p ∈ paths ∨ b.path ≠ [] ∧ p = ⟨b.column.table, b.path⟩ := by
    intro p
    rw [h.mem_iff]
    constructor
    · rintro ⟨hne, b', hb', hpath, htable⟩
      rcases List.mem_append.1 hb' with hb' | hb'
      · exact Or.inl ⟨hne, b', hb', hpath, htable⟩
      · obtain rfl := List.mem_singleton.1 hb'
        refine Or.inr ⟨hpath ▸ hne, ?_⟩
        rw [hpath, htable]
    · rintro (⟨hne, b', hb', hpath, htable⟩ | ⟨hne, rfl⟩)
      · exact ⟨hne, b', List.mem_append_left _ hb', hpath, htable⟩
      · exact ⟨hne, b, by simp, rfl, rfl⟩
  split_ifs with hold
  · refine ⟨fun p => ?_, h.once, hsorted⟩
    rw [hmem]
    refine ⟨Or.inl, ?_⟩
    rintro (hp | ⟨hne, rfl⟩)
    · exact hp
    · exact hold.resolve_left hne
  · obtain ⟨hne, hnew⟩ := not_or.1 hold
    -- a path that is listed would lead to the same table
    have hfresh : ∀ b' ∈ bindings, b'.path ≠ b.path := fun b' hb' hpath =>
      hnew ((h.mem_iff _).2 ⟨hne, b', hb', hpath, hends hne b' hb' hpath⟩)
    refine ⟨fun p => ?_, ?_, ?_⟩
    · rw [hmem, List.mem_append, List.mem_singleton]
      exact or_congr_right ⟨fun hp => ⟨hne, hp⟩, And.right⟩
    · rw [List.map_append, List.nodup_append]
      refine ⟨h.once, by simp, ?_⟩
      rintro path hpath path' hpath' rfl
      obtain ⟨p, hp, rfl⟩ := List.mem_map.1 hpath
      obtain ⟨-, b', hb', heq, -⟩ := (h.mem_iff p).1 hp
      simp only [List.map_cons, List.map_nil, List.mem_singleton] at hpath'
      exact hfresh b' hb' (heq.trans hpath')
    · rw [List.pairwise_append]
      refine ⟨hsorted, List.pairwise_singleton _ _, fun p hp q hq => ?_⟩
      obtain rfl := List.mem_singleton.1 hq
      obtain ⟨-, b', hb', hpath, -⟩ := (h.mem_iff p).1 hp
      rw [hplace p hp, List.map_append, List.idxOf_append_of_notMem]
      · have hlt := List.idxOf_lt_length_of_mem (List.mem_map.2 ⟨b', hb', hpath⟩)
        exact hlt.trans_le (Nat.le_add_right ..)
      · simpa using hfresh

/-- **The paths gathered are those of the bindings.** -/
lemma listsPaths_explicitPaths {bindings : List Binding}
    (hends : ∀ b ∈ bindings, b.path ≠ [] → endOf home b.path = b.column.table) :
    ListsPaths bindings (explicitPaths bindings) := by
  induction bindings using List.reverseRecOn with
  | nil => exact ⟨by simp [explicitPaths, distinct], by simp [explicitPaths, distinct], .nil⟩
  | append_singleton bindings b ih =>
    rw [explicitPaths_concat]
    have hold : ∀ b ∈ bindings, b.path ≠ [] → endOf home b.path = b.column.table :=
      fun b' hb' => hends b' (List.mem_append_left _ hb')
    refine (ih hold).concat fun hne b' hb' hpath => ?_
    rw [← hends b (by simp) hne, ← hold b' hb' (hpath ▸ hne), hpath]

/-- There is one such list. -/
lemma ListsPaths.unique {bindings : List Binding} {paths paths' : List ExplicitPath}
    (h : ListsPaths bindings paths) (h' : ListsPaths bindings paths') : paths = paths' := by
  let before : ExplicitPath → ExplicitPath → Prop := fun p q =>
    (bindings.map Binding.path).idxOf p.path < (bindings.map Binding.path).idxOf q.path
  have : Std.Antisymm before := ⟨fun _ _ hpq hqp => absurd hpq hqp.asymm⟩
  have : Std.Irrefl before := ⟨fun _ hpp => lt_irrefl _ hpp⟩
  exact h.sorted.eq_of_mem_iff h'.sorted fun p => (h.mem_iff p).trans (h'.mem_iff p).symm

/-! ## Whole filters -/

/-- A filter is bound reference by reference. -/
structure BindsEach (db : Database) (home : TableId) (rule : UnqualifiedRule) (e : Expr Reference)
    (bindings : List Binding) (f : BoundFilter) : Prop where
  each : List.Forall₂ (fun r b => db.bind home rule r = .ok b) e.columns bindings
  /-- the filter is the same but for its columns, each of which stands where its reference stood -/
  parallel : e.Parallel (fun r c => ∃ b, db.bind home rule r = .ok b ∧ b.column = c) f.expr
  columns : f.expr.columns = bindings.map Binding.column
  owned : ∀ c ∈ f.expr.columns, db.hasColumn c.table c.column = true
  paths : ListsPaths bindings f.paths

/-- A path that a reference spells out ends at the table that the reference is bound to. -/
lemma endOf_of_bind {r : Reference} {b : Binding} (h : db.bind home rule r = .ok b)
    (hpath : b.path ≠ []) : endOf home b.path = b.column.table :=
  endOf_eq ((bind_sound h).2.resolve_right fun hnil => hpath hnil.1)

/-- Where all references are bound, this is what comes out. -/
lemma bindsEach_of_forall (h : ∀ r ∈ e.columns, ∃ b, db.bind home rule r = .ok b) :
    db.BindsEach home rule e (e.columns.map (db.bindingOf home rule))
      ⟨e.mapColumns fun r => (db.bindingOf home rule r).column,
        explicitPaths (e.columns.map (db.bindingOf home rule))⟩ := by
  have hbind : ∀ r ∈ e.columns, db.bind home rule r = .ok (db.bindingOf home rule r) := by
    intro r hr
    obtain ⟨b, hb⟩ := h r hr
    rw [hb, bindingOf_eq hb]
  have hends : ∀ b ∈ e.columns.map (db.bindingOf home rule),
      b.path ≠ [] → endOf home b.path = b.column.table := by
    intro b hb
    obtain ⟨r, hr, rfl⟩ := List.mem_map.1 hb
    exact endOf_of_bind (hbind r hr)
  refine ⟨?_, ?_, ?_, ?_, listsPaths_explicitPaths hends⟩
  · exact List.forall₂_map_right_iff.2 (List.forall₂_same.2 hbind)
  · exact Expr.parallel_mapColumns fun r hr => ⟨_, hbind r hr, rfl⟩
  · rw [Expr.columns_mapColumns, List.map_map]
    rfl
  · intro c hc
    rw [Expr.columns_mapColumns] at hc
    obtain ⟨r, hr, rfl⟩ := List.mem_map.1 hc
    exact (bind_sound (hbind r hr)).1

lemma BindsEach.exists_bind {bindings : List Binding} {f : BoundFilter}
    (h : db.BindsEach home rule e bindings f) :
    ∀ r ∈ e.columns, ∃ b, db.bind home rule r = .ok b := by
  intro r hr
  obtain ⟨i, hi, rfl⟩ := List.mem_iff_getElem.1 hr
  exact ⟨_, h.each.get hi (h.each.length_eq ▸ hi)⟩

/-- It is all that can be said of a bound filter. -/
lemma BindsEach.eq {bindings : List Binding} {f : BoundFilter}
    (h : db.BindsEach home rule e bindings f) :
    bindings = e.columns.map (db.bindingOf home rule)
      ∧ f = ⟨e.mapColumns fun r => (db.bindingOf home rule r).column,
        explicitPaths (e.columns.map (db.bindingOf home rule))⟩ := by
  have hbindings : e.columns.map (db.bindingOf home rule) = bindings := by
    rw [← List.forall₂_eq_eq_eq, List.forall₂_map_left_iff]
    exact h.each.imp fun r b hb => bindingOf_eq hb
  have hexpr : e.mapColumns (fun r => (db.bindingOf home rule r).column) = f.expr := by
    refine h.parallel.eq_mapColumns ?_
    rintro r c ⟨b, hb, rfl⟩
    rw [bindingOf_eq hb]
  have hpaths : f.paths = explicitPaths (e.columns.map (db.bindingOf home rule)) := by
    rw [← hbindings] at h
    exact h.paths.unique (bindsEach_of_forall h.exists_bind).paths
  refine ⟨hbindings.symm, ?_⟩
  rw [hexpr, ← hpaths]

/-- **A filter is bound reference by reference.**  It is refused with the failure of its first
reference that has one, and so exactly if there is one, and is bound to what its references are
bound to each on its own. -/
theorem bindFilter_iff_bindsEach (hhome : home < db.tables.size) (rule : UnqualifiedRule)
    (e : Expr Reference) :
    (∀ x, (db.bindFilter home rule e).result = .error x ↔ ∃ before r after,
        e.columns = before ++ r :: after ∧ (∀ q ∈ before, ∃ b, db.bind home rule q = .ok b)
          ∧ db.bind home rule r = .error x)
      ∧ ((∃ x, (db.bindFilter home rule e).result = .error x) ↔
        ∃ r ∈ e.columns, ∃ x, db.bind home rule r = .error x)
      ∧ ∀ f, (db.bindFilter home rule e).result = .ok f ↔
        ∃ bindings, db.BindsEach home rule e bindings f := by
  have ht := table_eq_ok_iff.2 (Array.getElem?_eq_getElem hhome)
  have herror : ∀ x, (db.bindFilter home rule e).result = .error x ↔
      e.mapColumnsM (db.bind home rule) = .error x := by
    intro x
    rw [(bindFilter_returns rule e).result, ht]
    show (e.mapColumnsM (db.bind home rule) >>= _) = _ ↔ _
    cases e.mapColumnsM (db.bind home rule) with
    | error y => exact ⟨fun h => by cases h; rfl, fun h => by cases h; rfl⟩
    | ok bound => exact iff_of_false nofun nofun
  have hok : ∀ f, (db.bindFilter home rule e).result = .ok f ↔
      ∃ bindings, db.BindsEach home rule e bindings f := by
    intro f
    rw [bindFilter_eq_ok_iff]
    constructor
    · rintro ⟨-, hall, rfl⟩
      exact ⟨_, bindsEach_of_forall hall⟩
    · rintro ⟨bindings, h⟩
      exact ⟨⟨_, ht⟩, h.exists_bind, h.eq.2⟩
  refine ⟨fun x => (herror x).trans Expr.mapColumnsM_eq_error_iff, ?_, hok⟩
  constructor
  · rintro ⟨x, hx⟩
    obtain ⟨before, r, after, hcolumns, -, hr⟩ := Expr.mapColumnsM_eq_error_iff.1 ((herror x).1 hx)
    exact ⟨r, by simp [hcolumns], x, hr⟩
  · rintro ⟨r, hr, x, hx⟩
    cases hresult : (db.bindFilter home rule e).result with
    | error y => exact ⟨y, rfl⟩
    | ok f =>
      obtain ⟨-, hall, -⟩ := bindFilter_eq_ok_iff.1 hresult
      obtain ⟨b, hb⟩ := hall r hr
      rw [hb] at hx
      cases hx

/-- `(b.x == 1 & ~(nope == 1)) | z.y == 2`, where there is neither a column `nope` nor a relation
`z` -/
def unknownTwice : Expr Reference :=
  .or [.and [.compare ⟨.path ["b"] "x", 1⟩ .eq (.integer 1),
      .not (.compare ⟨.plain "nope", 14⟩ .eq (.integer 1))],
    .compare ⟨.path ["z"] "y", 28⟩ .eq (.integer 2)]

/-- `o.y == 1 & (b.x == 1 | ~(o.y == 2)) & x == 5` -/
def spelledTwice : Expr Reference :=
  .and [.compare ⟨.path ["o"] "y", 0⟩ .eq (.integer 1),
    .or [.compare ⟨.path ["b"] "x", 12⟩ .eq (.integer 1),
      .not (.compare ⟨.path ["o"] "y", 25⟩ .eq (.integer 2))],
    .compare ⟨.plain "x", 38⟩ .eq (.integer 5)]

/-- Of two references that cannot be bound the first one is reported, and a path that is spelled out
twice is listed once. -/
theorem bindFilter_iff_bindsEach_crossing :
    0 < crossing.database.tables.size
      ∧ (∃ before r after, unknownTwice.columns = before ++ r :: after
        ∧ (∀ q ∈ before, ∃ b, crossing.database.bind 0 .strict q = .ok b)
        ∧ crossing.database.bind 0 .strict r
          = .error (.unknownColumn "nope" ["h", "a", "c", "b", "o"]))
      ∧ ∃ bindings, crossing.database.BindsEach 0 .strict spelledTwice bindings
        ⟨.and [.compare ⟨4, "y"⟩ .eq (.integer 1),
            .or [.compare ⟨3, "x"⟩ .eq (.integer 1), .not (.compare ⟨4, "y"⟩ .eq (.integer 2))],
            .compare ⟨3, "x"⟩ .eq (.integer 5)],
          [⟨4, [⟨0, "a", 1, "k", "k"⟩, ⟨1, "b", 3, "k", "k"⟩, ⟨3, "o", 4, "k", "k"⟩]⟩,
            ⟨3, [⟨0, "a", 1, "k", "k"⟩, ⟨1, "b", 3, "k", "k"⟩]⟩]⟩ := by
  have h : 0 < crossing.database.tables.size
      ∧ (crossing.database.bindFilter 0 .strict unknownTwice).result
        = .error (.unknownColumn "nope" ["h", "a", "c", "b", "o"])
      ∧ (crossing.database.bindFilter 0 .strict spelledTwice).result = .ok
        ⟨.and [.compare ⟨4, "y"⟩ .eq (.integer 1),
            .or [.compare ⟨3, "x"⟩ .eq (.integer 1), .not (.compare ⟨4, "y"⟩ .eq (.integer 2))],
            .compare ⟨3, "x"⟩ .eq (.integer 5)],
          [⟨4, [⟨0, "a", 1, "k", "k"⟩, ⟨1, "b", 3, "k", "k"⟩, ⟨3, "o", 4, "k", "k"⟩]⟩,
            ⟨3, [⟨0, "a", 1, "k", "k"⟩, ⟨1, "b", 3, "k", "k"⟩]⟩]⟩ :=
    ⟨by cbv, by cbv, by cbv⟩
  obtain ⟨hhome, hrefused, hbound⟩ := h
  obtain ⟨herror, -, -⟩ := bindFilter_iff_bindsEach hhome .strict unknownTwice
  obtain ⟨-, -, hok⟩ := bindFilter_iff_bindsEach hhome .strict spelledTwice
  exact ⟨hhome, (herror _).1 hrefused, (hok _).1 hbound⟩

end Database

end LinkedTables
