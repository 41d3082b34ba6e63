import Mathlib
import LinkedTables.Proofs.Catalog.OutOfReach
import LinkedTables.Proofs.Schema.Nearest

/-!
# Names without a path

A name alone is looked up in all tables in reach, and what it is bound to depends on nothing but
which of them have such a column.  `Catalog.BindsName` says how, with two lists that the search is
not needed for (`Schema.Lists`): the tables in reach, and those of them that have the column.

* **One of them has it**, and it owns the column.
* **None has it**, and the failure names all tables in reach.
* **Several have it**, and the failure names these, the nearest one first.

Only where the home table goes first is the column taken from there without a search.
-/

namespace LinkedTables

namespace Database

variable {db : Database} {home : TableId} {name : String} {owners reached : List TableId}

/-! ## The search -/

section

variable (hhome : home < db.schema.size)
  (howners : db.schema.Lists home (fun id => db.hasColumn id name = true) owners)
include hhome howners

lemma filter_reachable_eq :
    ((db.schema.reachable home).map Reached.table).filter (db.hasColumn · name) = owners :=
  (Schema.lists_filter hhome (db.hasColumn · name)).unique howners

/-- **A search succeeds** if one table has the column. -/
lemma search_eq_ok_iff {b : Binding} :
    db.search home name = .ok b ↔ ∃ id, owners = [id] ∧ b = ⟨⟨id, name⟩, [], true⟩ := by
  simp only [search, filter_reachable_eq hhome howners]
  rcases owners with _ | ⟨owner, _ | ⟨second, rest⟩⟩
  · simp
  · simp [eq_comm]
  · simp

lemma search_of_two_le (h : 2 ≤ owners.length) :
    db.search home name = .error (.ambiguousColumn name (owners.map db.schema.nameOf)) := by
  simp only [search, filter_reachable_eq hhome howners]
  rcases owners with _ | ⟨owner, _ | ⟨second, rest⟩⟩
  · simp at h
  · simp at h
  · rfl

lemma search_of_eq_nil (hreached : db.schema.Lists home (fun _ => True) reached)
    (h : owners = []) :
    db.search home name = .error (.unknownColumn name (reached.map db.schema.nameOf)) := by
  subst h
  simp only [search, filter_reachable_eq hhome howners]
  rw [(Schema.lists_reachable hhome).unique hreached]

end

end Database

namespace Catalog

variable {c : Catalog} {home : TableId}

/-- A table in reach is called by the name it is registered under. -/
lemma Reachable.tableName?_eq (hc : c.Reachable) (hhome : home < c.size) {id : TableId}
    (hid : c.schema.Reaches home id) : c.schema.tableName? id = some (c.schema.nameOf id) := by
  have hsize : home < c.schema.size := hc.closed.lt_schema_size hhome
  obtain ⟨x, hx, rfl⟩ := List.mem_map.1 ((Schema.mem_reachable_iff hsize).2 hid)
  obtain ⟨name, hname, -⟩ := hc.consistent.found x.table
    (lt_of_lt_of_eq (hid.lt_size hc.closed.schema hsize) hc.closed.size_eq)
  rw [hname, Schema.nameOf_eq hname]

/-! ## The binding of a name -/

/-- What a name alone is bound to, said with the tables in reach and the owners among them. -/
structure BindsName (c : Catalog) (home : TableId) (rule : UnqualifiedRule) (name : String)
    (reached owners : List TableId) (answer : Except Failure Binding) : Prop where
  all : c.schema.Lists home (fun _ => True) reached
  having : c.schema.Lists home (fun id => c.database.hasColumn id name = true) owners
  /-- tables in reach have names, which the failures use -/
  named : ∀ id ∈ reached, c.schema.tableName? id = some (c.schema.nameOf id)
  home_first : rule = .preferHome → c.database.hasColumn home name = true →
    ∃ b, answer = .ok b ∧ b.column = ⟨home, name⟩
  unique : rule = .strict ∨ c.database.hasColumn home name = false →
    ∀ id, (∃ b, answer = .ok b ∧ b.column = ⟨id, name⟩) ↔ owners = [id]
  unknown : rule = .strict ∨ c.database.hasColumn home name = false → owners = [] →
    answer = .error (.unknownColumn name (reached.map c.schema.nameOf))
  ambiguous : rule = .strict ∨ c.database.hasColumn home name = false → 2 ≤ owners.length →
    answer = .error (.ambiguousColumn name (owners.map c.schema.nameOf))
  /-- whichever way it is found, the owner is in reach and has the column -/
  owner : ∀ b, answer = .ok b → b.column.column = name ∧ b.path = []
    ∧ c.schema.Reaches home b.column.table ∧ c.database.hasColumn b.column.table name = true

/-- **Names without a path are bound by what is in reach**: to the home table if that goes first,
and else to the one table in reach that has such a column, or to none. -/
theorem bindsName_of_plain (hc : c.Reachable) (hhome : home < c.size) (rule : UnqualifiedRule)
    (name : String) (position : ℕ) : ∃ reached owners,
      c.BindsName home rule name reached owners
        (c.database.bind home rule ⟨.plain name, position⟩) := by
  have hsize : home < c.database.schema.size := hc.closed.lt_schema_size hhome
  have hreached := Schema.lists_reachable hsize
  have howners := Schema.lists_filter hsize (c.database.hasColumn · name)
  have hsearch : rule = .strict ∨ c.database.hasColumn home name = false →
      c.database.bind home rule ⟨.plain name, position⟩ = c.database.search home name := by
    rintro (rfl | hcolumn)
    · simp [Database.bind]
    · simp [Database.bind, hcolumn]
  refine ⟨_, _, hreached, howners, ?_, ?_, ?_, ?_, ?_, ?_⟩
  · exact fun id hid => hc.tableName?_eq hhome ((hreached.mem_iff id).1 hid).1
  · rintro rfl hcolumn
    exact ⟨⟨⟨home, name⟩, [], false⟩, by simp [Database.bind, hcolumn], rfl⟩
  · intro hrule id
    simp only [hsearch hrule, Database.search_eq_ok_iff hsize howners]
    constructor
    · rintro ⟨_, ⟨id', hid', rfl⟩, hcolumn⟩
      cases hcolumn
      exact hid'
    · exact fun hid => ⟨_, ⟨id, hid, rfl⟩, rfl⟩
  · exact fun hrule hnil =>
      (hsearch hrule).trans (Database.search_of_eq_nil hsize howners hreached hnil)
  · exact fun hrule htwo => (hsearch hrule).trans (Database.search_of_two_le hsize howners htwo)
  · intro b hb
    by_cases hrule : rule = .strict ∨ c.database.hasColumn home name = false
    · rw [hsearch hrule, Database.search_eq_ok_iff hsize howners] at hb
      obtain ⟨id, hid, rfl⟩ := hb
      exact ⟨rfl, rfl, (howners.mem_iff id).1 (by simp [hid])⟩
    · -- the home table goes first and has the column
      obtain ⟨hne, hcolumn⟩ := not_or.1 hrule
      have hprefer : rule = .preferHome := by cases rule <;> simp_all
      simp only [Bool.not_eq_false] at hcolumn
      simp only [Database.bind, hprefer, hcolumn, and_self, if_true] at hb
      cases hb
      exact ⟨rfl, rfl, Schema.reaches_home c.schema home, hcolumn⟩

/-- All tables have a column `k`.  Two ways lead to `b`, which is nevertheless named once, and
behind the tables that are nearer. -/
theorem bindsName_of_plain_crossing :
    crossing.Reachable ∧ 0 < crossing.size
      ∧ crossing.BindsName 0 .strict "k" [0, 1, 2, 3, 4] [0, 1, 2, 3, 4]
        (crossing.database.bind 0 .strict ⟨.plain "k", 0⟩)
      ∧ crossing.database.bind 0 .strict ⟨.plain "k", 0⟩
        = .error (.ambiguousColumn "k" ["h", "a", "c", "b", "o"]) := by
  have h : 0 < crossing.size ∧ 0 < crossing.database.schema.size
      ∧ (crossing.database.schema.reachable 0).map Reached.table = [0, 1, 2, 3, 4]
      ∧ ((crossing.database.schema.reachable 0).map Reached.table).filter
          (crossing.database.hasColumn · "k") = [0, 1, 2, 3, 4]
      ∧ [0, 1, 2, 3, 4].map crossing.schema.nameOf = ["h", "a", "c", "b", "o"] :=
    ⟨by cbv, by cbv, by cbv, by cbv, by cbv⟩
  obtain ⟨hhome, hsize, hreached, howners, hnames⟩ := h
  obtain ⟨reached, owners, hbinds⟩ := bindsName_of_plain reachable_crossing hhome .strict "k" 0
  obtain rfl : [0, 1, 2, 3, 4] = reached :=
    hreached.symm.trans ((Schema.lists_reachable hsize).unique hbinds.all)
  obtain rfl : [0, 1, 2, 3, 4] = owners :=
    howners.symm.trans (Database.filter_reachable_eq hsize hbinds.having)
  have hanswer := hbinds.ambiguous (Or.inl rfl) (by decide)
  rw [hnames] at hanswer
  exact ⟨reachable_crossing, hhome, hbinds, hanswer⟩

end Catalog

end LinkedTables
