import Mathlib
import LinkedTables.Proofs.Lexicographic
import LinkedTables.Proofs.Schema.Completeness

/-!
# The nearest path to every table

The tables in reach come out breadth first, and this file says what that means for every schema,
also for one with targets that are not registered, cycles, wrong sources and repeated names.

`Schema.rank` orders paths: a shorter one comes before a longer one, and of two with one length
that one comes first whose relation is declared first where they part.  A path is known by its rank
(`eq_of_rank_eq`).  Two facts carry everything else, and `Ranked` keeps both.

* **The tables come out in the order of their paths.**  The paths of a round go on from those of
  the round before it, which are in order, and relations are followed as they are declared
  (`inOrder_nextRound`).
* **The first way to a table is taken.**  Of all the ways to go on to a table from the tables of a
  round, the first is the path that it is found with (`rank_le_of_nextRound`).

By induction on a path it then does not come before the one that its table is found with
(`rank_le_of_leads`).  `breadthFirst_reachable` has all of it, with completeness.
-/

namespace LinkedTables

namespace Schema

variable {s : Schema} {home id : TableId} {depth : ℕ} {seen : List TableId}
  {found round : List Reached}

/-! ## The order of paths -/

/-- Where each relation of a path stands among those declared on the table that the path has led to
by then. -/
def places (s : Schema) : TableId → List Relation → List ℕ
  | _, [] => []
  | id, r :: rest => (s.relationsOf id).idxOf r :: s.places r.target rest

/-- Paths in order: by length, and then by the places of their relations. -/
def rank (s : Schema) (home : TableId) (path : List Relation) : ℕ ×ₗ List ℕ :=
  toLex (path.length, s.places home path)

@[simp]
lemma length_places (path : List Relation) : (s.places id path).length = path.length := by
  induction path generalizing id with
  | nil => rfl
  | cons r rest ih => simp [places, ih]

lemma rank_lt_iff {p q : List Relation} : s.rank home p < s.rank home q ↔
    p.length < q.length ∨ p.length = q.length ∧ s.places home p < s.places home q := by
  simp [rank, Prod.Lex.toLex_lt_toLex]

lemma rank_lt_of_length_lt {p q : List Relation} (h : p.length < q.length) :
    s.rank home p < s.rank home q := rank_lt_iff.2 (Or.inl h)

lemma places_append (p : List Relation) (q : Relation) (rest : List Relation) :
    s.places id (p ++ q :: rest) = s.places id (p ++ [q]) ++ s.places q.target rest := by
  induction p generalizing id with
  | nil => rfl
  | cons r p ih => simp [places, ih]

/-- The last relation of a path is looked up on the table that the others lead to. -/
lemma places_snoc {path : List Relation} (h : s.Leads home path id) (r : Relation) :
    s.places home (path ++ [r]) = s.places home path ++ [(s.relationsOf id).idxOf r] := by
  cases h with
  | nil => rfl
  | snoc _ _ =>
    rw [List.append_assoc, List.singleton_append, places_append]
    rfl

/-- What is added behind two paths does not change their order. -/
lemma rank_snoc_lt {p q : List Relation} {id' : TableId} (hp : s.Leads home p id)
    (hq : s.Leads home q id') (h : s.rank home p < s.rank home q) (r r' : Relation) :
    s.rank home (p ++ [r]) < s.rank home (q ++ [r']) := by
  rw [rank_lt_iff] at h ⊢
  rw [places_snoc hp, places_snoc hq]
  rcases h with hlt | ⟨hlength, hlt⟩
  · exact Or.inl (by simpa using hlt)
  · exact Or.inr ⟨by simpa using hlength, lex_append hlt (by simpa using hlength) _ _⟩

/-- Behind one path the relation that is declared first comes first. -/
lemma rank_snoc_lt_of_idxOf {p : List Relation} (hp : s.Leads home p id) {q r : Relation}
    (h : (s.relationsOf id).idxOf q < (s.relationsOf id).idxOf r) :
    s.rank home (p ++ [q]) < s.rank home (p ++ [r]) := by
  refine rank_lt_iff.2 (Or.inr ⟨by simp, ?_⟩)
  rw [places_snoc hp, places_snoc hp]
  exact lex_append_singleton h _

/-- **A path is known by its rank.** -/
lemma eq_of_rank_eq {p q : List Relation} {id' : TableId} (hp : s.Leads home p id)
    (hq : s.Leads home q id') (h : s.rank home p = s.rank home q) : p = q := by
  have hplaces : s.places home p = s.places home q := congrArg (fun x => (ofLex x).2) h
  clear h
  induction hp generalizing q id' with
  | nil =>
    have hlength := congrArg List.length hplaces
    simp only [length_places, List.length_nil] at hlength
    exact (List.length_eq_zero_iff.1 hlength.symm).symm
  | @snoc p id r hp hr ih =>
    cases hq with
    | nil =>
      have hlength := congrArg List.length hplaces
      simp at hlength
    | @snoc q id' r' hq hr' =>
      rw [places_snoc hp, places_snoc hq] at hplaces
      rcases List.append_inj' hplaces rfl with ⟨hfront, hlast⟩
      obtain rfl := ih hq hfront
      obtain rfl := hp.unique hq
      rw [(List.idxOf_inj hr).1 (List.cons.inj hlast).1]

/-! ## Rounds in order -/

/-- A relation to a table that has been met stands in front of all that is found behind it. -/
lemma idxOf_cons_of_discover {path rest : List Relation} {r₀ q : Relation} {x : Reached}
    (hseen : r₀.target ∈ seen) (hx : x ∈ discover seen path rest) (hq : q.target = x.table) :
    (r₀ :: rest).idxOf q = rest.idxOf q + 1 := by
  refine List.idxOf_cons_ne rest ?_
  rintro rfl
  exact (mem_discover hx).1 (hq ▸ hseen)

/-- What is found from one table stands in the order of declaration. -/
lemma pairwise_discover {path rs : List Relation} :
    ∀ seen : List TableId, (discover seen path rs).Pairwise fun x y => ∃ q r,
      x = ⟨q.target, path ++ [q]⟩ ∧ y = ⟨r.target, path ++ [r]⟩ ∧ rs.idxOf q < rs.idxOf r := by
  induction rs with
  | nil =>
    intro seen
    simp [discover]
  | cons r₀ rest ih =>
    intro seen
    have hrest : ∀ {seen : List TableId}, r₀.target ∈ seen →
        (discover seen path rest).Pairwise fun x y => ∃ q r, x = ⟨q.target, path ++ [q]⟩
          ∧ y = ⟨r.target, path ++ [r]⟩ ∧ (r₀ :: rest).idxOf q < (r₀ :: rest).idxOf r := by
      intro seen hseen
      refine (ih seen).imp_of_mem ?_
      rintro x y hx hy ⟨q, r, rfl, rfl, hlt⟩
      refine ⟨q, r, rfl, rfl, ?_⟩
      rw [idxOf_cons_of_discover hseen hx rfl, idxOf_cons_of_discover hseen hy rfl]
      omega
    simp only [discover]
    split_ifs with hseen
    · exact hrest hseen
    · have hmet : r₀.target ∈ r₀.target :: seen := List.mem_cons_self
      refine List.pairwise_cons.2 ⟨?_, hrest hmet⟩
      intro y hy
      obtain ⟨-, r, -, rfl⟩ := mem_discover hy
      refine ⟨r₀, r, rfl, rfl, ?_⟩
      rw [idxOf_cons_of_discover hmet hy rfl, List.idxOf_cons_self]
      omega

/-- Of several relations to a table the one that is declared first is taken. -/
lemma idxOf_le_of_discover {path rs : List Relation} {r : Relation} (hr : r ∈ rs)
    {x : Reached} (htarget : r.target = x.table) :
    ∀ {seen : List TableId}, x ∈ discover seen path rs →
      ∃ q ∈ rs, x = ⟨q.target, path ++ [q]⟩ ∧ rs.idxOf q ≤ rs.idxOf r := by
  induction rs with
  | nil => simp at hr
  | cons r₀ rest ih =>
    intro seen hx
    have hrest : ∀ {seen : List TableId}, r₀.target ∈ seen → x ∈ discover seen path rest →
        ∃ q ∈ r₀ :: rest, x = ⟨q.target, path ++ [q]⟩
          ∧ (r₀ :: rest).idxOf q ≤ (r₀ :: rest).idxOf r := by
      intro seen' hseen hx'
      rcases List.mem_cons.1 hr with rfl | hr
      · exact absurd (htarget ▸ hseen) (mem_discover hx').1
      · obtain ⟨q, hq, rfl, hle⟩ := ih hr hx'
        refine ⟨q, List.mem_cons_of_mem r₀ hq, rfl, ?_⟩
        rw [idxOf_cons_of_discover hseen hx' rfl, idxOf_cons_of_discover hseen hx' htarget]
        omega
    simp only [discover] at hx
    split_ifs at hx with hseen
    · exact hrest hseen hx
    · rcases List.mem_cons.1 hx with rfl | hx
      · exact ⟨r₀, List.mem_cons_self, rfl, by simp⟩
      · exact hrest List.mem_cons_self hx

/-- Entries in the order of their paths. -/
def InOrder (s : Schema) (home : TableId) (found : List Reached) : Prop :=
  found.Pairwise fun x y => s.rank home x.path < s.rank home y.path

/-- **From a round in order comes a round in order.** -/
lemma inOrder_nextRound (hleads : ∀ x ∈ round, s.Leads home x.path x.table)
    (horder : s.InOrder home round) (seen : List TableId) :
    s.InOrder home (s.nextRound seen round) := by
  induction round generalizing seen with
  | nil => exact List.Pairwise.nil
  | cons y rest ih =>
    have hy := hleads y List.mem_cons_self
    have hrest : ∀ x ∈ rest, s.Leads home x.path x.table :=
      fun x hx => hleads x (List.mem_cons_of_mem y hx)
    obtain ⟨hbefore, horder⟩ := List.pairwise_cons.1 horder
    refine List.pairwise_append.2 ⟨?_, ih hrest horder _, ?_⟩
    · refine (pairwise_discover seen).imp ?_
      rintro x z ⟨q, r, rfl, rfl, hlt⟩
      exact rank_snoc_lt_of_idxOf hy hlt
    · intro x hx z hz
      obtain ⟨-, q, -, rfl⟩ := mem_discover hx
      obtain ⟨-, y', hy', r, -, rfl⟩ := mem_nextRound hz
      exact rank_snoc_lt hy (hrest y' hy') (hbefore y' hy') q r

/-- **The first way to a table is taken**, of all ways that a round offers. -/
lemma rank_le_of_nextRound (hleads : ∀ x ∈ round, s.Leads home x.path x.table)
    (horder : s.InOrder home round) {x y : Reached} (hx : x ∈ s.nextRound seen round)
    (hy : y ∈ round) {r : Relation} (hr : r ∈ s.relationsOf y.table)
    (htarget : r.target = x.table) :
    s.rank home x.path ≤ s.rank home (y.path ++ [r]) := by
  induction round generalizing seen with
  | nil => simp at hy
  | cons y₀ rest ih =>
    have hy₀ := hleads y₀ List.mem_cons_self
    have hrest : ∀ x ∈ rest, s.Leads home x.path x.table :=
      fun x hx => hleads x (List.mem_cons_of_mem y₀ hx)
    obtain ⟨hbefore, horder⟩ := List.pairwise_cons.1 horder
    rcases List.mem_append.1 hx with hx | hx
    · rcases List.mem_cons.1 hy with rfl | hy
      · obtain ⟨q, hq, rfl, hle⟩ := idxOf_le_of_discover hr htarget hx
        rcases lt_or_eq_of_le hle with hlt | heq
        · exact (rank_snoc_lt_of_idxOf hy₀ hlt).le
        · rw [(List.idxOf_inj hq).1 heq]
      · obtain ⟨-, q, -, rfl⟩ := mem_discover hx
        exact (rank_snoc_lt hy₀ (hrest y hy) (hbefore y hy) q r).le
    · rcases List.mem_cons.1 hy with rfl | hy
      · -- all that the front table leads to has been met before the rest is looked at
        refine absurd ?_ (mem_nextRound hx).1
        rw [← htarget, List.mem_append]
        exact (target_mem_discover hr seen).symm
      · exact ih hrest horder hx hy

/-! ## The whole search -/

/-- What holds between two rounds: all relations from `found` have been followed, and none from
`round`. -/
structure Layered (s : Schema) (home : TableId) (depth : ℕ) (seen : List TableId)
    (found round : List Reached) : Prop where
  leads : ∀ x ∈ found ++ round, s.Leads home x.path x.table
  length_le : ∀ x ∈ found ++ round, x.path.length ≤ depth
  length_eq : ∀ x ∈ round, x.path.length = depth
  met : ∀ y ∈ found, ∀ r ∈ s.relationsOf y.table, r.target ∈ seen
  order : s.InOrder home (found ++ round)
  first : ∀ x ∈ found ++ round, ∀ y ∈ found, ∀ r ∈ s.relationsOf y.table, r.target = x.table →
    s.rank home x.path ≤ s.rank home (y.path ++ [r])

lemma Layered.nextRound (h : Layered s home depth seen found round) :
    Layered s home (depth + 1) ((s.nextRound seen round).map Reached.table ++ seen)
      (found ++ round) (s.nextRound seen round) := by
  have hround : ∀ x ∈ round, s.Leads home x.path x.table :=
    fun x hx => h.leads x (List.mem_append_right found hx)
  have horder : s.InOrder home round := (List.pairwise_append.1 h.order).2.1
  have hnew : ∀ x ∈ s.nextRound seen round, s.Leads home x.path x.table
      ∧ x.path.length = depth + 1 := by
    intro x hx
    obtain ⟨-, y, hy, r, hr, rfl⟩ := mem_nextRound hx
    exact ⟨.snoc (hround y hy) hr, by simp [h.length_eq y hy]⟩
  constructor
  · intro x hx
    rcases List.mem_append.1 hx with hx | hx
    · exact h.leads x hx
    · exact (hnew x hx).1
  · intro x hx
    rcases List.mem_append.1 hx with hx | hx
    · exact (h.length_le x hx).trans (Nat.le_succ depth)
    · exact (hnew x hx).2.le
  · exact fun x hx => (hnew x hx).2
  · intro y hy r hr
    rcases List.mem_append.1 hy with hy | hy
    · exact List.mem_append_right _ (h.met y hy r hr)
    · exact List.mem_append.2 (target_mem_nextRound hy hr seen).symm
  · refine List.pairwise_append.2 ⟨h.order, inOrder_nextRound hround horder seen, ?_⟩
    intro x hx z hz
    exact rank_lt_of_length_lt (by rw [(hnew z hz).2]; exact Nat.lt_succ_of_le (h.length_le x hx))
  · intro x hx y hy r hr htarget
    rcases List.mem_append.1 hx with hx | hx <;> rcases List.mem_append.1 hy with hy | hy
    · exact h.first x hx y hy r hr htarget
    · refine (rank_lt_of_length_lt ?_).le
      simpa [h.length_eq y hy] using Nat.lt_succ_of_le (h.length_le x hx)
    · exact absurd (htarget ▸ h.met y hy r hr) (mem_nextRound hx).1
    · exact rank_le_of_nextRound hround horder hx hy hr htarget

/-- What holds in the end. -/
structure Ranked (s : Schema) (home : TableId) (found : List Reached) : Prop where
  order : s.InOrder home found
  first : ∀ x ∈ found, ∀ y ∈ found, ∀ r ∈ s.relationsOf y.table, r.target = x.table →
    s.rank home x.path ≤ s.rank home (y.path ++ [r])

/-- The way on from the last round is longer than all paths found. -/
lemma Layered.ranked (h : Layered s home depth seen found round) :
    Ranked s home (found ++ round) := by
  refine ⟨h.order, ?_⟩
  intro x hx y hy r hr htarget
  rcases List.mem_append.1 hy with hy | hy
  · exact h.first x hx y hy r hr htarget
  · refine (rank_lt_of_length_lt ?_).le
    simpa [h.length_eq y hy] using Nat.lt_succ_of_le (h.length_le x hx)

lemma Layered.roundsFrom {rounds : ℕ} :
    ∀ {depth : ℕ} {seen : List TableId} {found round : List Reached},
      Layered s home depth seen found round →
      Ranked s home (found ++ s.roundsFrom rounds seen round) := by
  induction rounds with
  | zero => exact fun h => h.ranked
  | succ rounds ih =>
    intro depth seen found round h
    by_cases hnext : s.nextRound seen round = []
    · rw [roundsFrom_eq_self hnext]
      exact h.ranked
    · rw [roundsFrom_succ hnext, ← List.append_assoc]
      exact ih h.nextRound

lemma ranked_reachable (s : Schema) (home : TableId) : Ranked s home (s.reachable home) := by
  rw [reachable_eq_roundsFrom]
  split_ifs
  · have hstart : Layered s home 0 [home] [] [⟨home, []⟩] := by
      constructor <;> simp [InOrder, Leads.nil]
    exact hstart.roundsFrom
  · constructor <;> simp [InOrder]

/-- **No path to a table comes before the one that it is found with.** -/
theorem rank_le_of_leads {x : Reached} (hx : x ∈ s.reachable home) {path : List Relation}
    (h : s.Leads home path x.table) : s.rank home x.path ≤ s.rank home path := by
  have hhome : home < s.size := by
    by_contra hge
    simp [reachable_eq_nil (not_lt.1 hge)] at hx
  generalize hid : x.table = id at h
  induction h generalizing x with
  | nil =>
    rw [eq_of_mem_reachable hx (home_mem_reachable hx) hid]
  | @snoc path id r hpath hr ih =>
    obtain ⟨y, hy, rfl⟩ := List.mem_map.1 (mem_reachable_of_leads hhome hpath)
    have hbetter : s.rank home (y.path ++ [r]) ≤ s.rank home (path ++ [r]) := by
      rcases lt_or_eq_of_le (ih hy rfl) with hlt | heq
      · exact (rank_snoc_lt (leads_of_mem_reachable hy) hpath hlt r r).le
      · rw [eq_of_rank_eq (leads_of_mem_reachable hy) hpath heq]
    exact ((ranked_reachable s home).first x hx y hy r hr hid.symm).trans hbetter

/-- **No path to a table is shorter than the one that it is found with.** -/
lemma length_le_of_leads {x : Reached} (hx : x ∈ s.reachable home) {path : List Relation}
    (h : s.Leads home path x.table) : x.path.length ≤ path.length :=
  not_lt.1 fun hlt => not_lt.2 (rank_le_of_leads hx h) (rank_lt_of_length_lt hlt)

/-- What a breadth-first search finds. -/
structure BreadthFirst (s : Schema) (home : TableId) (found : List Reached) : Prop where
  home_first : ∃ rest, found = ⟨home, []⟩ :: rest
  once : (found.map Reached.table).Nodup
  complete : ∀ id, id ∈ found.map Reached.table ↔ s.Reaches home id
  leads : ∀ x ∈ found, s.Leads home x.path x.table
  shortest : ∀ x ∈ found, ∀ path, s.Leads home path x.table → x.path.length ≤ path.length
  /-- of the shortest paths, the one whose relations are declared first -/
  least : ∀ x ∈ found, ∀ path, s.Leads home path x.table → path.length = x.path.length →
    path = x.path ∨ s.places home x.path < s.places home path
  /-- nearer tables first, and of equally near ones that with the lesser path -/
  sorted : found.Pairwise fun x y => x.path.length < y.path.length
    ∨ x.path.length = y.path.length ∧ s.places home x.path < s.places home y.path

/-- **The search for tables in reach is breadth first**, in every schema and from every table. -/
theorem breadthFirst_reachable (s : Schema) (home : TableId) :
    (home < s.size ∧ BreadthFirst s home (s.reachable home))
      ∨ (s.size ≤ home ∧ s.reachable home = []) := by
  rcases lt_or_ge home s.size with hhome | hhome
  · refine Or.inl ⟨hhome, exists_reachable_eq_cons hhome, (search_reachable s home).nodup,
      fun id => mem_reachable_iff hhome, fun x hx => leads_of_mem_reachable hx,
      fun x hx path => length_le_of_leads hx, ?_, ?_⟩
    · intro x hx path hpath hlength
      rcases lt_or_eq_of_le (rank_le_of_leads hx hpath) with hlt | heq
      · rcases rank_lt_iff.1 hlt with hlt | ⟨-, hlt⟩
        · omega
        · exact Or.inr hlt
      · exact Or.inl (eq_of_rank_eq (leads_of_mem_reachable hx) hpath heq).symm
    · exact (ranked_reachable s home).order.imp fun hlt => rank_lt_iff.1 hlt
  · exact Or.inr ⟨hhome, reachable_eq_nil hhome⟩

/-- The way over `b` is as short as the one over `a` and declared behind it; `c` leads to no
registered table, and one relation leads back. -/
example : ((⟨#[⟨"h", [⟨0, "a", 1, "k", "k"⟩, ⟨0, "c", 9, "k", "k"⟩, ⟨0, "b", 2, "k", "k"⟩]⟩,
      ⟨"s", [⟨1, "h", 0, "k", "k"⟩, ⟨1, "o", 3, "k", "k"⟩]⟩,
      ⟨"t", [⟨2, "o", 3, "k", "k"⟩, ⟨2, "o", 1, "k", "k"⟩]⟩, ⟨"u", []⟩]⟩ : Schema).reachable 0).map
      (fun x => (x.table, x.path.map Relation.name))
    = [(0, []), (1, ["a"]), (9, ["c"]), (2, ["b"]), (3, ["a", "o"])] := by
  decide

end Schema

end LinkedTables
