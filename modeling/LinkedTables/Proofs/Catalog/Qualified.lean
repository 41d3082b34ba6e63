import Mathlib
import LinkedTables.Proofs.Catalog.Unqualified

/-!
# Names with a path

A qualified name is looked up segment by segment.  `Database.BindsPath` has one rule for each way in
which that can end, and the search and the loop behind it end in no other way (`bindPath_iff`).

* **The first segment** is a relation of the first table in reach that declares one of the name, and
  leads there over the nearest path.  Only if no table in reach does can it be the name of the home
  table (`Schema.Begins`).
* **Each further segment** is a relation of the table reached so far (`Schema.Walk`).
* **The last table** has to have the column.

As the part of the path that the search has found ends where the rest of it starts, the whole is one
path from the home table on (`Schema.Begins.leads`, `Schema.Leads.append_walk`), and its last
relations are called like the segments.  This is what is recorded (`Catalog.RecordsPath`).
-/

namespace LinkedTables

namespace Schema

variable {s : Schema} {home id id' : TableId} {name segment : String} {r : Relation}
  {segments : List String} {path front back : List Relation}

/-! ## Segments -/

/-- Relations of given names lead from one table to another, each declared where the last one
ends. -/
inductive Walk (s : Schema) : TableId → List String → List Relation → TableId → Prop
  | nil {id : TableId} : Walk s id [] [] id
  | cons {id id' : TableId} {r : Relation} {segments : List String} {path : List Relation} :
      r ∈ s.relationsOf id → Walk s r.target segments path id' →
      Walk s id (r.name :: segments) (r :: path) id'

lemma Walk.of_cons (h : s.Walk id (segment :: segments) (r :: path) id') :
    r ∈ s.relationsOf id ∧ s.Walk r.target segments path id' := by
  cases h with
  | cons hr hrest => exact ⟨hr, hrest⟩

/-- The relations have the names that are written. -/
lemma Walk.map_name (h : s.Walk id segments path id') : path.map Relation.name = segments := by
  induction h with
  | nil => rfl
  | cons _ _ ih => rw [List.map_cons, ih]

/-- A path goes on from where it has led to. -/
lemma Leads.append_walk (h : s.Leads home front id) (hwalk : s.Walk id segments back id') :
    s.Leads home (front ++ back) id' := by
  induction hwalk generalizing front with
  | nil => rwa [List.append_nil]
  | cons hr _ ih =>
    rw [List.append_cons]
    exact ih (h.snoc hr)

lemma Walk.snoc (h : s.Walk id segments path id') (hr : r ∈ s.relationsOf id') :
    s.Walk id (segments ++ [r.name]) (path ++ [r]) r.target := by
  induction h with
  | nil => exact .cons hr .nil
  | cons hq _ ih => exact .cons hq (ih hr)

/-- Every path can be written as the names of its relations. -/
lemma Leads.walk (h : s.Leads home path id) : s.Walk home (path.map Relation.name) path id := by
  induction h with
  | nil => exact .nil
  | snoc _ hr ih =>
    rw [List.map_append]
    exact ih.snoc hr

/-- The path that a first segment stands for, and the table it leads to. -/
inductive Begins (s : Schema) (home : TableId) (segment : String) : List Relation → TableId → Prop
  /-- the first table in reach that declares a relation of the name, and the relation behind it -/
  | relation {path : List Relation} {id : TableId} {r : Relation} :
      s.Nearest home path id → r ∈ s.relationsOf id → r.name = segment →
      (∀ id', s.Before home id' id → ¬ s.Declares id' segment) →
      Begins s home segment (path ++ [r]) r.target
  /-- the home table itself, if there is no such relation -/
  | home : (∀ id, s.Reaches home id → ¬ s.Declares id segment) →
      s.tableName? home = some segment → Begins s home segment [] home

lemma Begins.leads (h : s.Begins home segment path id) : s.Leads home path id := by
  cases h with
  | relation hpath hr _ _ => exact hpath.1.snoc hr
  | home _ _ => exact .nil

/-- What is found begins with what has been written, or the home table was meant. -/
lemma Begins.spelling (h : s.Begins home segment front id) (hwalk : s.Walk id segments back id') :
    (segment :: segments) <:+ (front ++ back).map Relation.name
      ∨ (front ++ back).map Relation.name = segments ∧ s.tableName? home = some segment
        ∧ ∀ id, s.Reaches home id → ¬ s.Declares id segment := by
  rw [List.map_append, hwalk.map_name]
  cases h with
  | @relation path _ r _ _ hname _ =>
    refine Or.inl ⟨path.map Relation.name, ?_⟩
    rw [List.map_append, List.map_singleton, hname, List.append_assoc, List.singleton_append]
  | home hnone hname => exact Or.inr ⟨rfl, hname, hnone⟩

/-! ## What segments can stand for -/

/-- A first segment stands for a path, or there is nothing that it could stand for. -/
lemma begins_or_not (hn : s.NamesOnce) (hhome : home < s.size) (segment : String) :
    (∃ path id, s.Begins home segment path id)
      ∨ (∀ id, s.Reaches home id → ¬ s.Declares id segment)
        ∧ s.tableName? home ≠ some segment := by
  cases hfind : s.findRelation? home segment with
  | some path =>
    obtain ⟨front, id, r, hpath, hr, hfirst, rfl⟩ :=
      (findRelation?_eq_some_iff hhome).1 hfind
    obtain ⟨hmem, hname⟩ := hn.relation?_eq_some_iff.1 hr
    exact Or.inl ⟨_, _, .relation hpath hmem hname hfirst⟩
  | none =>
    have hnone := (findRelation?_eq_none_iff hhome).1 hfind
    by_cases hname : s.tableName? home = some segment
    · exact Or.inl ⟨_, _, .home hnone hname⟩
    · exact Or.inr ⟨hnone, hname⟩

/-- Segments are relations up to the end, or one of them is not. -/
lemma walk_or_not (s : Schema) (id : TableId) (segments : List String) :
    (∃ back id', s.Walk id segments back id') ∨ ∃ before segment after back id',
      segments = before ++ segment :: after ∧ s.Walk id before back id'
        ∧ ¬ s.Declares id' segment := by
  induction segments generalizing id with
  | nil => exact Or.inl ⟨[], id, .nil⟩
  | cons segment rest ih =>
    by_cases hdeclares : s.Declares id segment
    · obtain ⟨r, hr, rfl⟩ := hdeclares
      rcases ih r.target with
        ⟨back, id', hwalk⟩ | ⟨before, segment, after, back, id', rfl, hwalk, hno⟩
      · exact Or.inl ⟨_, _, .cons hr hwalk⟩
      · exact Or.inr ⟨r.name :: before, segment, after, _, _, rfl, .cons hr hwalk, hno⟩
    · exact Or.inr ⟨[], segment, rest, [], id, rfl, .nil, hdeclares⟩

end Schema

namespace Database

variable {db : Database} {home id id' : TableId} {first name segment : String}
  {segments rest : List String} {path front back : List Relation} {x : Except Failure Binding}

/-! ## How a qualified name is bound -/

/-- What a name behind a path of segments is bound to, or why it is not bound. -/
inductive BindsPath (db : Database) (home : TableId) (first : String) (rest : List String)
    (name : String) : Except Failure Binding → Prop
  | bound {front back : List Relation} {id id' : TableId} : db.schema.Begins home first front id →
      db.schema.Walk id rest back id' → db.hasColumn id' name = true →
      BindsPath db home first rest name (.ok ⟨⟨id', name⟩, front ++ back, false⟩)
  /-- the last table does not have the column -/
  | noColumn {front back : List Relation} {id id' : TableId} :
      db.schema.Begins home first front id → db.schema.Walk id rest back id' →
      db.hasColumn id' name = false →
      BindsPath db home first rest name (.error (.unknownColumn name [db.schema.nameOf id']))
  /-- one of the further segments is no relation of the table reached so far -/
  | noRelation {front back : List Relation} {id id' : TableId} {before after : List String}
      {segment : String} : db.schema.Begins home first front id →
      rest = before ++ segment :: after → db.schema.Walk id before back id' →
      ¬ db.schema.Declares id' segment →
      BindsPath db home first rest name
        (.error (.unknownRelation segment (db.schema.nameOf id')))
  /-- the first segment is neither a relation in reach nor the name of the home table -/
  | noBeginning : (∀ id, db.schema.Reaches home id → ¬ db.schema.Declares id first) →
      db.schema.tableName? home ≠ some first →
      BindsPath db home first rest name
        (.error (.unknownRelation first (db.schema.nameOf home)))

@[simp] lemma endOf_append_singleton (path : List Relation) (r : Relation) :
    endOf home (path ++ [r]) = r.target := by
  simp [endOf]

lemma firstHops_of_begins (hn : db.schema.NamesOnce) (hhome : home < db.schema.size)
    (h : db.schema.Begins home segment path id) : db.firstHops home segment = .ok path := by
  cases h with
  | @relation path id r hpath hr hname hfirst =>
    have hfind : db.schema.findRelation? home segment = some (path ++ [r]) :=
      (Schema.findRelation?_eq_some_iff hhome).2
        ⟨path, id, r, hpath, hn.relation?_eq_some_iff.2 ⟨hr, hname⟩, hfirst, rfl⟩
    rw [firstHops, hfind]
  | home hnone hname =>
    rw [firstHops, (Schema.findRelation?_eq_none_iff hhome).2 hnone]
    exact if_pos hname

lemma firstHops_of_forall_not (hhome : home < db.schema.size)
    (hnone : ∀ id, db.schema.Reaches home id → ¬ db.schema.Declares id segment)
    (hname : db.schema.tableName? home ≠ some segment) :
    db.firstHops home segment = .error (.unknownRelation segment (db.schema.nameOf home)) := by
  rw [firstHops, (Schema.findRelation?_eq_none_iff hhome).2 hnone]
  exact if_neg hname

/-- **The loop follows segments** as far as they are relations. -/
lemma followHops_of_walk (hn : db.schema.NamesOnce) (h : db.schema.Walk id segments back id')
    (more : List String) (hend : endOf home path = id) :
    db.followHops home path (segments ++ more) = db.followHops home (path ++ back) more
      ∧ endOf home (path ++ back) = id' := by
  induction h generalizing path with
  | nil => rw [List.append_nil]; exact ⟨rfl, hend⟩
  | @cons id id' r segments back hr _ ih =>
    rw [List.cons_append, followHops, hend, hn.relation?_eq_some_iff.2 ⟨hr, rfl⟩, List.append_cons]
    exact ih (endOf_append_singleton path r)

/-- **Each of the rules says what comes out.** -/
lemma BindsPath.bindPath_eq (hn : db.schema.NamesOnce) (hhome : home < db.schema.size)
    (h : db.BindsPath home first rest name x) :
    db.bindPath home (first :: rest) name = x := by
  have hbegins : ∀ {front : List Relation} {id : TableId}, db.schema.Begins home first front id →
      endOf home front = id ∧ db.bindPath home (first :: rest) name
        = (db.followHops home front rest >>= fun path =>
          db.bindOn (endOf home path) path name) := by
    intro front id h
    rw [bindPath, firstHops_of_begins hn hhome h]
    exact ⟨endOf_eq h.leads, rfl⟩
  cases h with
  | bound h hwalk hcolumn =>
    obtain ⟨hend, heq⟩ := hbegins h
    obtain ⟨hfollow, hend'⟩ := followHops_of_walk hn hwalk [] hend
    rw [List.append_nil] at hfollow
    rw [heq, hfollow]
    show db.bindOn _ _ name = _
    rw [hend', bindOn, if_pos hcolumn]
  | noColumn h hwalk hcolumn =>
    obtain ⟨hend, heq⟩ := hbegins h
    obtain ⟨hfollow, hend'⟩ := followHops_of_walk hn hwalk [] hend
    rw [List.append_nil] at hfollow
    rw [heq, hfollow]
    show db.bindOn _ _ name = _
    rw [hend', bindOn, if_neg (by simp [hcolumn])]
  | @noRelation _ _ _ _ before after segment h hrest hwalk hno =>
    obtain ⟨hend, heq⟩ := hbegins h
    obtain ⟨hfollow, hend'⟩ := followHops_of_walk hn hwalk (segment :: after) hend
    rw [heq, hrest, hfollow, followHops, hend', Schema.relation?_eq_none_iff.2 hno]
    rfl
  | noBeginning hnone hname =>
    rw [bindPath, firstHops_of_forall_not hhome hnone hname]
    rfl

lemma exists_bindsPath (hn : db.schema.NamesOnce) (hhome : home < db.schema.size) (first : String)
    (rest : List String) (name : String) : ∃ x, db.BindsPath home first rest name x := by
  rcases Schema.begins_or_not hn hhome first with ⟨front, id, hbegins⟩ | ⟨hnone, hname⟩
  · rcases Schema.walk_or_not db.schema id rest with
      ⟨back, id', hwalk⟩ | ⟨before, segment, after, back, id', hrest, hwalk, hno⟩
    · cases hcolumn : db.hasColumn id' name with
      | true => exact ⟨_, .bound hbegins hwalk hcolumn⟩
      | false => exact ⟨_, .noColumn hbegins hwalk hcolumn⟩
    · exact ⟨_, .noRelation hbegins hrest hwalk hno⟩
  · exact ⟨_, .noBeginning hnone hname⟩

/-- **A qualified name is bound as the rules say**, and in no other way. -/
theorem bindPath_iff (hn : db.schema.NamesOnce) (hhome : home < db.schema.size) :
    db.bindPath home (first :: rest) name = x ↔ db.BindsPath home first rest name x := by
  constructor
  · rintro rfl
    obtain ⟨x, hx⟩ := exists_bindsPath hn hhome first rest name
    rwa [hx.bindPath_eq hn hhome]
  · exact fun h => h.bindPath_eq hn hhome

/-! ## A filter with one reference -/

/-- A comparison has the column of its reference, and the path if there is one. -/
lemma bindFilter_compare {rule : UnqualifiedRule} {r : Reference} {b : Binding}
    (hhome : home < db.tables.size) (hb : db.bind home rule r = .ok b) (op : Comparator)
    (literal : Cell) : (db.bindFilter home rule (.compare r op literal)).result
      = .ok ⟨.compare b.column op literal,
        if b.path = [] then [] else [⟨b.column.table, b.path⟩]⟩ := by
  have ht := table_eq_ok_iff.2 (Array.getElem?_eq_getElem hhome)
  refine bindFilter_eq_ok_iff.2 ⟨⟨_, ht⟩, by simpa using ⟨b, hb⟩, ?_⟩
  rw [Expr.mapColumns_compare, Expr.columns_compare, List.map_singleton, bindingOf_eq hb]
  refine congrArg (BoundFilter.mk _) ?_
  cases hpath : b.path <;> simp [explicitPaths, distinct, hpath]

end Database

namespace Catalog

open Database

variable {c : Catalog} {home : TableId} {first name : String} {rest : List String}

/-- What is recorded of a qualified name that has been bound. -/
structure RecordsPath (c : Catalog) (home : TableId) (first : String) (rest : List String)
    (name : String) (b : Binding) : Prop where
  column : b.column.column = name
  hasColumn : c.database.hasColumn b.column.table name = true
  /-- each relation is declared on its source, which is where the part in front of it ends -/
  chain : ∀ front r back, b.path = front ++ r :: back →
    r ∈ c.schema.relationsOf r.source ∧ r.source = endOf home front
  ends : endOf home b.path = b.column.table
  /-- all segments are written last; only the name of the home table adds nothing to the path -/
  spelling : (first :: rest) <:+ b.path.map Relation.name
    ∨ b.path.map Relation.name = rest ∧ c.schema.tableName? home = some first
      ∧ ∀ id, c.schema.Reaches home id → ¬ c.schema.Declares id first

lemma recordsPath_of_bindsPath (hs : c.schema.Closed) {b : Binding}
    (h : c.database.BindsPath home first rest name (.ok b)) :
    c.RecordsPath home first rest name b := by
  cases h with
  | @bound front back id id' hbegins hwalk hcolumn =>
    have hleads : c.schema.Leads home (front ++ back) id' := hbegins.leads.append_walk hwalk
    refine ⟨rfl, hcolumn, ?_, endOf_eq hleads, hbegins.spelling hwalk⟩
    intro before r after hpath
    have hpath : front ++ back = before ++ r :: after := hpath
    have hsource : c.schema.Leads home before r.source := hleads.source hs hpath
    refine ⟨(JoinPlan.connected_of_leads hs hleads).2.1 r ?_, (endOf_eq hsource).symm⟩
    rw [hpath]
    exact List.mem_append_right before List.mem_cons_self

/-- **A qualified name is bound along a path of declared relations** that starts at the home table,
and where there is none the failure says at which segment and on which table. -/
theorem bindsPath_of_segments (hc : c.Reachable) (hhome : home < c.size) (rule : UnqualifiedRule)
    (first : String) (rest : List String) (name : String) (position : ℕ) :
    (∀ x, c.database.bind home rule ⟨.path (first :: rest) name, position⟩ = x ↔
        c.database.BindsPath home first rest name x)
      ∧ (∀ id, c.schema.Reaches home id → c.schema.tableName? id = some (c.schema.nameOf id))
      ∧ ∀ b, c.database.bind home rule ⟨.path (first :: rest) name, position⟩ = .ok b →
        c.RecordsPath home first rest name b
          ∧ ∀ op literal, (c.database.bindFilter home rule
              (.compare ⟨.path (first :: rest) name, position⟩ op literal)).result
            = .ok ⟨.compare b.column op literal,
              if b.path = [] then [] else [⟨b.column.table, b.path⟩]⟩ := by
  have hs : c.database.schema.Closed := hc.closed.schema
  have hsize : home < c.database.schema.size := hc.closed.lt_schema_size hhome
  have hiff : ∀ x, c.database.bind home rule ⟨.path (first :: rest) name, position⟩ = x ↔
      c.database.BindsPath home first rest name x := fun x => bindPath_iff hc.closed.names hsize
  refine ⟨hiff, fun id => hc.tableName?_eq hhome, fun b hb => ?_⟩
  exact ⟨recordsPath_of_bindsPath hs ((hiff _).1 hb), bindFilter_compare hhome hb⟩

/-- Two tables declare a relation `b`.  The one that is found first is on `a`, and the path to `a`
stands in front of what is written. -/
theorem bindsPath_of_segments_crossing :
    crossing.Reachable ∧ 0 < crossing.size
      ∧ crossing.database.bind 0 .strict ⟨.path ["b", "o"] "y", 0⟩ = .ok ⟨⟨4, "y"⟩,
        [⟨0, "a", 1, "k", "k"⟩, ⟨1, "b", 3, "k", "k"⟩, ⟨3, "o", 4, "k", "k"⟩], false⟩
      ∧ crossing.database.BindsPath 0 "b" ["o"] "y" (.ok ⟨⟨4, "y"⟩,
        [⟨0, "a", 1, "k", "k"⟩, ⟨1, "b", 3, "k", "k"⟩, ⟨3, "o", 4, "k", "k"⟩], false⟩)
      ∧ crossing.RecordsPath 0 "b" ["o"] "y" ⟨⟨4, "y"⟩,
        [⟨0, "a", 1, "k", "k"⟩, ⟨1, "b", 3, "k", "k"⟩, ⟨3, "o", 4, "k", "k"⟩], false⟩ := by
  have h : 0 < crossing.size
      ∧ crossing.database.bind 0 .strict ⟨.path ["b", "o"] "y", 0⟩ = .ok ⟨⟨4, "y"⟩,
        [⟨0, "a", 1, "k", "k"⟩, ⟨1, "b", 3, "k", "k"⟩, ⟨3, "o", 4, "k", "k"⟩], false⟩ :=
    ⟨by cbv, by cbv⟩
  obtain ⟨hhome, hbind⟩ := h
  obtain ⟨hiff, -, hrecords⟩ :=
    bindsPath_of_segments reachable_crossing hhome .strict "b" ["o"] "y" 0
  exact ⟨reachable_crossing, hhome, hbind, (hiff _).1 hbind, (hrecords _ hbind).1⟩

end Catalog

end LinkedTables
