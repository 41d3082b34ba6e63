import Mathlib
import LinkedTables.Proofs.Schema.BreadthFirst

/-!
# Which table comes first

A name that several tables in reach know is looked up in the order in which the search comes to
them.  Here that order is said without the search, by paths alone.

* **The nearest path** to a table is the first one in the order of `Schema.rank`: no other is
  shorter, and of those with its length none has relations that are declared earlier
  (`Schema.Nearest`).  The search finds each table with this path and no other
  (`nearest_iff_mem`).
* **One table comes before another** if its nearest path does (`Schema.Before`).
* **A list of tables in reach**, in this order, is known by its members (`Schema.Lists.unique`).

What the search is used for can then be said in the same way: the nearest relation of a name is
declared on the first table that declares one (`findRelation?_eq_some_iff`).  No table that declares
one is nearer, and this holds in every schema and from every home table, also where names are
repeated, targets dangle or the home table is not registered (`findRelation?_iff_nearestNamesake`).
-/

namespace LinkedTables

namespace Schema

variable {s : Schema} {home id id' : TableId} {path path' : List Relation} {name : String}

/-! ## Nearest paths -/

/-- A path that leads to a table, before which no other one comes. -/
def Nearest (s : Schema) (home : TableId) (path : List Relation) (id : TableId) : Prop :=
  s.Leads home path id ∧ ∀ path', s.Leads home path' id → s.rank home path ≤ s.rank home path'

/-- A table has one nearest path. -/
lemma Nearest.unique (h : s.Nearest home path id) (h' : s.Nearest home path' id) : path = path' :=
  eq_of_rank_eq h.1 h'.1 (le_antisymm (h.2 path' h'.1) (h'.2 path h.1))

lemma nearest_of_mem_reachable {x : Reached} (hx : x ∈ s.reachable home) :
    s.Nearest home x.path x.table :=
  ⟨leads_of_mem_reachable hx, fun _ => rank_le_of_leads hx⟩

/-- **Each table is found with its nearest path.** -/
theorem nearest_iff_mem (hhome : home < s.size) :
    s.Nearest home path id ↔ ⟨id, path⟩ ∈ s.reachable home := by
  constructor
  · intro h
    obtain ⟨x, hx, rfl⟩ := List.mem_map.1 ((mem_reachable_iff hhome).2 ⟨path, h.1⟩)
    rwa [h.unique (nearest_of_mem_reachable hx)]
  · exact nearest_of_mem_reachable

lemma exists_nearest (hhome : home < s.size) (h : s.Reaches home id) :
    ∃ path, s.Nearest home path id := by
  obtain ⟨x, hx, rfl⟩ := List.mem_map.1 ((mem_reachable_iff hhome).2 h)
  exact ⟨x.path, nearest_of_mem_reachable hx⟩

/-! ## The order of tables -/

/-- The nearest path to a table comes before the one to another table. -/
def Before (s : Schema) (home id id' : TableId) : Prop :=
  ∃ path path', s.Nearest home path id ∧ s.Nearest home path' id'
    ∧ s.rank home path < s.rank home path'

lemma Before.asymm (h : s.Before home id id') : ¬ s.Before home id' id := by
  rintro ⟨q', q, hq', hq, hlt'⟩
  obtain ⟨p, p', hp, hp', hlt⟩ := h
  rw [hp.unique hq, hp'.unique hq'] at hlt
  exact lt_asymm hlt hlt'

lemma Before.reaches (h : s.Before home id id') : s.Reaches home id := by
  obtain ⟨path, -, hpath, -⟩ := h
  exact ⟨path, hpath.1⟩

/-- **The search finds tables in this order.** -/
theorem pairwise_before (s : Schema) (home : TableId) :
    ((s.reachable home).map Reached.table).Pairwise (s.Before home) := by
  rw [List.pairwise_map]
  refine (ranked_reachable s home).order.imp_of_mem fun hx hy hlt => ?_
  exact ⟨_, _, nearest_of_mem_reachable hx, nearest_of_mem_reachable hy, hlt⟩

/-- The tables before one of those that are found are the ones in front of it. -/
lemma before_iff_of_reachable_eq (hhome : home < s.size) {front back : List Reached} {x : Reached}
    (h : s.reachable home = front ++ x :: back) :
    s.Before home id x.table ↔ id ∈ front.map Reached.table := by
  have hpairwise := pairwise_before s home
  rw [h, List.map_append, List.map_cons] at hpairwise
  obtain ⟨-, hback, hfront⟩ := List.pairwise_append.1 hpairwise
  constructor
  · intro hbefore
    have hmem := (mem_reachable_iff hhome).2 hbefore.reaches
    rw [h, List.map_append, List.map_cons] at hmem
    rcases List.mem_append.1 hmem with hmem | hmem
    · exact hmem
    · rcases List.mem_cons.1 hmem with rfl | hmem
      · exact absurd hbefore hbefore.asymm
      · exact absurd ((List.pairwise_cons.1 hback).1 _ hmem) hbefore.asymm
  · exact fun hid => hfront id hid _ List.mem_cons_self

/-- The tables in reach of which something holds, in order. -/
structure Lists (s : Schema) (home : TableId) (P : TableId → Prop) (ids : List TableId) :
    Prop where
  mem_iff : ∀ id, id ∈ ids ↔ s.Reaches home id ∧ P id
  sorted : ids.Pairwise (s.Before home)

/-- **Such a list is known by what holds of its members.** -/
theorem Lists.unique {P : TableId → Prop} {ids ids' : List TableId} (h : s.Lists home P ids)
    (h' : s.Lists home P ids') : ids = ids' := by
  have : Std.Antisymm (s.Before home) := ⟨fun _ _ hab hba => absurd hba hab.asymm⟩
  have : Std.Irrefl (s.Before home) := ⟨fun _ haa => haa.asymm haa⟩
  exact h.sorted.eq_of_mem_iff h'.sorted fun id => (h.mem_iff id).trans (h'.mem_iff id).symm

lemma lists_filter (hhome : home < s.size) (P : TableId → Bool) :
    s.Lists home (P · = true) (((s.reachable home).map Reached.table).filter P) :=
  ⟨fun id => by rw [List.mem_filter, mem_reachable_iff hhome], (pairwise_before s home).filter P⟩

/-- The search lists all tables in reach. -/
lemma lists_reachable (hhome : home < s.size) :
    s.Lists home (fun _ => True) ((s.reachable home).map Reached.table) :=
  ⟨fun id => by rw [mem_reachable_iff hhome, and_true], pairwise_before s home⟩

/-! ## Relations of a name -/

/-- A table has a relation of a name. -/
def Declares (s : Schema) (id : TableId) (name : String) : Prop :=
  ∃ r ∈ s.relationsOf id, r.name = name

lemma relation?_eq_none_iff : s.relation? id name = none ↔ ¬ s.Declares id name := by
  simp [relation?, Declares]

lemma NamesOnce.relation?_eq_some_iff (hs : s.NamesOnce) {r : Relation} :
    s.relation? id name = some r ↔ r ∈ s.relationsOf id ∧ r.name = name := by
  constructor
  · intro h
    exact ⟨List.mem_of_find?_eq_some h, by simpa using List.find?_some h⟩
  · rintro ⟨hr, rfl⟩
    cases hfind : s.relation? id r.name with
    | none => exact absurd ⟨r, hr, rfl⟩ (relation?_eq_none_iff.1 hfind)
    | some q =>
      have hq : q.name = r.name := by simpa using List.find?_some hfind
      rw [hs.eq_of_name_eq (List.mem_of_find?_eq_some hfind) hr hq]

/-- **The nearest relation of a name** is declared on the first table that has one. -/
theorem findRelation?_eq_some_iff (hhome : home < s.size) :
    s.findRelation? home name = some path ↔ ∃ front id r, s.Nearest home front id
      ∧ s.relation? id name = some r ∧ (∀ id', s.Before home id' id → ¬ s.Declares id' name)
      ∧ path = front ++ [r] := by
  simp only [findRelation?, List.findSome?_eq_some_iff]
  constructor
  · rintro ⟨front, x, back, hreachable, hx, hfront⟩
    obtain ⟨r, hr, rfl⟩ := Option.map_eq_some_iff.1 hx
    refine ⟨x.path, x.table, r, nearest_of_mem_reachable (by simp [hreachable]), hr, ?_, rfl⟩
    intro id' hbefore
    obtain ⟨y, hy, rfl⟩ := List.mem_map.1 ((before_iff_of_reachable_eq hhome hreachable).1 hbefore)
    exact relation?_eq_none_iff.1 (Option.map_eq_none_iff.1 (hfront y hy))
  · rintro ⟨path, id, r, hnearest, hr, hfirst, rfl⟩
    obtain ⟨front, back, hreachable⟩ := List.append_of_mem ((nearest_iff_mem hhome).1 hnearest)
    refine ⟨front, ⟨id, path⟩, back, hreachable, by simp [hr], fun y hy => ?_⟩
    have hbefore := (before_iff_of_reachable_eq hhome hreachable).2 (List.mem_map_of_mem hy)
    rw [relation?_eq_none_iff.2 (hfirst _ hbefore), Option.map_none]

/-- There is none exactly if no table in reach has one. -/
lemma findRelation?_eq_none_iff (hhome : home < s.size) :
    s.findRelation? home name = none ↔ ∀ id, s.Reaches home id → ¬ s.Declares id name := by
  simp only [findRelation?, List.findSome?_eq_none_iff, Option.map_eq_none_iff,
    relation?_eq_none_iff, ← mem_reachable_iff hhome, List.forall_mem_map]

/-! ## The nearest of several relations of a name -/

/-- Of the relations of a name that are declared on a table, the first. -/
def DeclaresFirst (s : Schema) (id : TableId) (name : String) (r : Relation) : Prop :=
  r.name = name ∧ ∃ before after, s.relationsOf id = before ++ r :: after
    ∧ ∀ q ∈ before, q.name ≠ name

lemma relation?_eq_some_iff {r : Relation} :
    s.relation? id name = some r ↔ s.DeclaresFirst id name r := by
  simp [relation?, DeclaresFirst, List.find?_eq_some_iff_append]

/-- `x` is the entry of the nearest table that declares a relation of the name, and `r` is the first
one that it declares. -/
structure NearestNamesake (s : Schema) (home : TableId) (name : String) (x : Reached)
    (r : Relation) : Prop where
  first : s.DeclaresFirst x.table name r
  /-- the search has found no such table before -/
  earliest : ∃ front back, s.reachable home = front ++ x :: back
    ∧ ∀ y ∈ front, ¬ s.Declares y.table name
  /-- `x` has a path to its table, and to no such table there is a shorter one -/
  leads : s.Leads home x.path x.table
  shortest : ∀ id path, s.Leads home path id → s.Declares id name → x.path.length ≤ path.length

/-- A table that is not registered has no way to any other. -/
lemma Leads.eq_home (hhome : s.size ≤ home) (h : s.Leads home path id) : id = home := by
  induction h with
  | nil => rfl
  | snoc _ hr ih =>
    rw [ih, relationsOf_eq_nil hhome] at hr
    simp at hr

lemma findRelation?_eq_none_iff_of_le (hhome : s.size ≤ home) :
    s.findRelation? home name = none ↔ ∀ id, s.Reaches home id → ¬ s.Declares id name := by
  have hnone : s.findRelation? home name = none := by
    simp [findRelation?, reachable_eq_nil hhome]
  refine iff_of_true hnone ?_
  rintro id ⟨path, hpath⟩ ⟨r, hr, -⟩
  rw [hpath.eq_home hhome, relationsOf_eq_nil hhome] at hr
  simp at hr

/-- No table is nearer than those in front of it in the search. -/
lemma length_le_of_reachable_eq {front back : List Reached} {x : Reached}
    (h : s.reachable home = front ++ x :: back) (hpath : s.Leads home path id)
    (hid : id ∉ front.map Reached.table) : x.path.length ≤ path.length := by
  have hhome : home < s.size := by
    by_contra hge
    simp [reachable_eq_nil (not_lt.1 hge)] at h
  obtain ⟨y, hy, rfl⟩ := List.mem_map.1 ((mem_reachable_iff hhome).2 ⟨path, hpath⟩)
  refine le_trans ?_ (length_le_of_leads hy hpath)
  have hordered := (ranked_reachable s home).order
  rw [h] at hy
  rw [InOrder, h] at hordered
  obtain ⟨-, hback, -⟩ := List.pairwise_append.1 hordered
  rcases List.mem_append.1 hy with hfront | hbehind
  · exact absurd (List.mem_map_of_mem hfront) hid
  · rcases List.mem_cons.1 hbehind with rfl | hbehind
    · exact le_rfl
    · rcases rank_lt_iff.1 ((List.pairwise_cons.1 hback).1 y hbehind) with hlt | ⟨heq, -⟩
      · exact hlt.le
      · exact heq.le

/-- **The nearest relation of a name is found.**  There is none exactly if no table in reach
declares one.  Otherwise the answer is the path with which the search has found a table, and behind
it the first relation of the name on that table; no table in reach that declares one is nearer, and
of those equally near this one is found first. -/
theorem findRelation?_iff_nearestNamesake (s : Schema) (home : TableId) (name : String) :
    (s.findRelation? home name = none ↔ ∀ id, s.Reaches home id → ¬ s.Declares id name)
    ∧ ∀ path, s.findRelation? home name = some path ↔
      ∃ x r, s.NearestNamesake home name x r ∧ path = x.path ++ [r] := by
  refine ⟨?_, fun path => ?_⟩
  · rcases lt_or_ge home s.size with hhome | hhome
    · exact findRelation?_eq_none_iff hhome
    · exact findRelation?_eq_none_iff_of_le hhome
  · simp only [findRelation?, List.findSome?_eq_some_iff, Option.map_eq_none_iff,
      relation?_eq_none_iff, Option.map_eq_some_iff, relation?_eq_some_iff]
    constructor
    · rintro ⟨front, x, back, hreachable, ⟨r, hr, rfl⟩, hfront⟩
      have hleads : s.Leads home x.path x.table := leads_of_mem_reachable (by simp [hreachable])
      refine ⟨x, r, ⟨hr, ⟨front, back, hreachable, hfront⟩, hleads, ?_⟩, rfl⟩
      intro id path hpath hdeclares
      refine length_le_of_reachable_eq hreachable hpath fun hid => ?_
      obtain ⟨y, hy, rfl⟩ := List.mem_map.1 hid
      exact hfront y hy hdeclares
    · rintro ⟨x, r, hnearest, rfl⟩
      obtain ⟨front, back, hreachable, hfront⟩ := hnearest.earliest
      exact ⟨front, x, back, hreachable, ⟨r, hnearest.first, rfl⟩, hfront⟩

/-- Three tables declare `o`, two of them one relation away from home.  The one that is found first
decides, and there the relation that is declared first. -/
example : (⟨#[⟨"h", [⟨0, "a", 1, "k", "k"⟩, ⟨0, "b", 2, "k", "k"⟩]⟩,
      ⟨"s", [⟨1, "o", 3, "k", "k"⟩, ⟨1, "o", 2, "k", "k"⟩]⟩, ⟨"t", [⟨2, "o", 3, "k", "k"⟩]⟩,
      ⟨"u", [⟨3, "o", 0, "k", "k"⟩]⟩]⟩ : Schema).findRelation? 0 "o"
    = some [⟨0, "a", 1, "k", "k"⟩, ⟨1, "o", 3, "k", "k"⟩] := by
  decide

end Schema

end LinkedTables
