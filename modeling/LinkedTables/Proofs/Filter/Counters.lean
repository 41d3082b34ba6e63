import Mathlib
import LinkedTables.Proofs.Stateful
import LinkedTables.Proofs.Filter.Grammar

/-!
# Parsing with an index and a depth

`Parser.parse` hands the tokens that are left from one function to the next, recurses on the levels
that may still be opened, and counts the levels left open when it stops.  A parser that keeps all
tokens, the index of the current one and the depth, and changes both as it goes, can go wrong in
ways that this one cannot: its index can leave the list, its depth can fall below what it was, and
it need not end.

* **The parser.**  `Descent.parse` is such a parser.  Its functions call each other, each time with
  less fuel.  It breaks where the fuel is used up, where the current token is asked for and the
  index is not in the list, and where the depth would fall below the value that it had at the
  beginning.
* **One step after the other.**  `Descent.Follows` says of a machine that, with enough fuel, it has
  a result from every index of the list, that this is the outcome of a parser of streams, and that
  it has gone over some tokens if it has succeeded.  `Counted.andThen` puts two steps in a row, and
  `follows_level` is what opens and closes a level.
* **It is `Parser.parse`.**  `Descent.follows_term` is the induction on the levels, and
  `Descent.ends_parse` is a whole call.
* **In balance.**  A function of the parser that succeeds has closed the levels that it has opened,
  and moved on (`Descent.partsBalanced`).
-/

namespace LinkedTables

open Outcome

/-- The index of the current token, and the depth of the nesting. -/
structure Counters where
  index : ℕ
  depth : ℕ

/-- A computation that moves an index in a list of tokens and changes a depth. -/
abbrev Descent (α : Type) := Machine Counters SyntaxError α

namespace Descent

open Machine

/-! ## The parser -/

variable (tokens : List PlacedToken) (base : ℕ)

/-- The current token; there must be one. -/
def current : Descent PlacedToken := do
  let c ← get
  match tokens[c.index]? with
  | some t => pure t
  | none => broken

/-- The index behind another one; the last one stays. -/
def following (i : ℕ) : ℕ := if i < tokens.length - 1 then i + 1 else i

/-- Go on by one token. -/
def advance : Descent Unit := modify fun c => { c with index := following tokens c.index }

/-- Stop at the current token. -/
def refuse {α : Type} (fault : SyntaxFault) : Descent α := do
  let t ← current tokens
  throw ⟨t.position, fault⟩

/-- Open a level, which stays open if it is one too many. -/
def enter : Descent Unit := do
  modify fun c => { c with depth := c.depth + 1 }
  let c ← get
  if maxNesting < c.depth then refuse tokens (.nestedTooDeep maxNesting) else pure ()

/-- Close a level; it must not be one that was open at the beginning. -/
def leave : Descent Unit := do
  let c ← get
  if base < c.depth then modify fun c => { c with depth := c.depth - 1 } else broken

/-- Parse a column or a literal. -/
def operand (missing : Token → SyntaxFault) : Descent Parser.Operand := do
  let t ← current tokens
  match t.token with
  | .column first rest => do
    advance tokens
    pure (.column (.ofPath first rest t.position))
  | .literal value => do
    advance tokens
    pure (.literal value t.position)
  | found => refuse tokens (missing found)

/-- Put the two sides of a comparison together. -/
def compareOperands (op : Comparator) :
    Parser.Operand → Parser.Operand → Descent (Expr Reference)
  | .column r, .literal value _ => pure (.compare r op value)
  | .literal value _, .column r => pure (.compare r op.converse value)
  | .column _, .column r => throw ⟨r.position, .twoColumns⟩
  | .literal _ position, .literal _ _ => throw ⟨position, .noColumn⟩

/-- Parse a comparison. -/
def comparison : Descent (Expr Reference) := do
  let left ← operand tokens .operandExpected
  let t ← current tokens
  match t.token with
  | .comparator op => do
    advance tokens
    let right ← operand tokens (.valueExpected op)
    compareOperands op left right
  | found => refuse tokens (.operatorExpected found)

mutual

/-- Parse a chain of terms. -/
def chain (c : Connective) : ℕ → Descent (Expr Reference)
  | 0 => broken
  | fuel + 1 => do
    let first ← link c fuel
    let terms ← more c [first] fuel
    pure (Parser.chainOf c.node terms)

/-- Parse further terms as long as the connective stands before them. -/
def more (c : Connective) (done : List (Expr Reference)) : ℕ → Descent (List (Expr Reference))
  | 0 => broken
  | fuel + 1 => do
    let t ← current tokens
    if t.token = c.token then do
      advance tokens
      let e ← link c fuel
      more c (e :: done) fuel
    else
      pure done.reverse

/-- Parse a term of a chain. -/
def link (c : Connective) : ℕ → Descent (Expr Reference)
  | 0 => broken
  | fuel + 1 =>
    match c with
    | .or => chain .and fuel
    | .and => term fuel

/-- Parse a term. -/
def term : ℕ → Descent (Expr Reference)
  | 0 => broken
  | fuel + 1 => do
    let t ← current tokens
    if t.token = .not then do
      enter tokens
      let e ← negation fuel
      leave base
      pure e
    else
      primary fuel

/-- Parse a negation from its sign on. -/
def negation : ℕ → Descent (Expr Reference)
  | 0 => broken
  | fuel + 1 => do
    advance tokens
    let e ← term fuel
    pure (.not e)

/-- Parse a term that is no negation. -/
def primary : ℕ → Descent (Expr Reference)
  | 0 => broken
  | fuel + 1 => do
    let t ← current tokens
    if t.token = .leftParen then do
      enter tokens
      let e ← parenthesized fuel
      leave base
      pure e
    else
      comparison tokens

/-- Parse what stands in parentheses from the opening one on. -/
def parenthesized : ℕ → Descent (Expr Reference)
  | 0 => broken
  | fuel + 1 => do
    let opening ← current tokens
    advance tokens
    let t ← current tokens
    if t.token = .rightParen then
      refuse tokens .emptyParentheses
    else do
      let e ← chain .or fuel
      let closing ← current tokens
      if closing.token = .rightParen then do
        advance tokens
        pure e
      else
        throw ⟨opening.position, .unclosedParenthesis closing.token⟩

end

/-- Parse what is left as one filter. -/
def parse (fuel : ℕ) : Descent (Expr Reference) := do
  let c ← get
  let t ← current tokens
  if t.token = .endOfInput then
    refuse tokens .emptyExpression
  else do
    let e ← chain tokens c.depth .or fuel
    let behind ← current tokens
    match behind.token with
    | .endOfInput => pure e
    | .rightParen => refuse tokens .unopenedParenthesis
    | found => refuse tokens (.trailing found)

/-! ## Single steps -/

variable {tokens base} {i d k : ℕ} {s : TokenStream} {α β : Type}

lemma runFrom_current (h : tokens.drop i = s.toList) :
    (current tokens).runFrom ⟨i, d⟩ = some (.ok s.current, ⟨i, d⟩) := by
  have hget : tokens[i]? = some s.current := by rw [← List.head?_drop, h]; rfl
  rw [current, runFrom_bind_ok (runFrom_get _)]
  dsimp only
  rw [hget, runFrom_pure]

lemma runFrom_refuse {fault : SyntaxFault} (h : tokens.drop i = s.toList) :
    (refuse tokens fault : Descent α).runFrom ⟨i, d⟩
      = some (.error ⟨s.current.position, fault⟩, ⟨i, d⟩) := by
  rw [refuse, runFrom_bind_ok (runFrom_current h), runFrom_throw]

lemma runFrom_advance :
    (advance tokens).runFrom ⟨i, d⟩ = some (.ok (), ⟨following tokens i, d⟩) := rfl

lemma le_following (tokens : List PlacedToken) (i : ℕ) : i ≤ following tokens i := by
  unfold following
  split_ifs <;> omega

lemma length_of_drop_eq (h : tokens.drop i = s.toList) :
    tokens.length = i + (s.later.length + 1) := by
  have hlength := congrArg List.length h
  rw [List.length_drop, TokenStream.length_toList] at hlength
  omega

lemma length_later_advance (hs : s.later ≠ []) : s.advance.later.length + 1 = s.later.length := by
  obtain ⟨t, later⟩ := s
  cases later with
  | nil => exact absurd rfl hs
  | cons u later => rfl

/-- The index moves on as the stream does. -/
lemma drop_following (h : tokens.drop i = s.toList) :
    tokens.drop (following tokens i) = s.advance.toList := by
  have hlength := length_of_drop_eq h
  obtain ⟨t, later⟩ := s
  cases later with
  | nil =>
    have hlast : ¬ i < tokens.length - 1 := by
      simp only [List.length_nil] at hlength
      omega
    rw [following, if_neg hlast, h]
    rfl
  | cons u later =>
    have hnext : i < tokens.length - 1 := by
      simp only [List.length_cons] at hlength
      omega
    rw [following, if_pos hnext, ← List.drop_drop, h]
    rfl

/-- Only the last token stays. -/
lemma lt_following (h : tokens.drop i = s.toList) (hs : s.later ≠ []) :
    i < following tokens i := by
  have hlength := length_of_drop_eq h
  have hlater := List.length_pos_iff.2 hs
  rw [following, if_pos (by omega)]
  exact Nat.lt_succ_self i

/-! ## Following a parser of streams -/

/-- From the index `i` and the depth `d` on, the result is the outcome of a parser of streams: the
index is where the stream that is left begins; what was parsed has moved it by `k` at least and left
the depth as it was; and a stop has raised the depth by the levels left open. -/
inductive Counted (tokens : List PlacedToken) (k i d : ℕ) :
    Outcome α → Option (Except SyntaxError α × Counters) → Prop
  | parsed {a : α} {behind : TokenStream} {j : ℕ} :
      tokens.drop j = behind.toList → i + k ≤ j →
      Counted tokens k i d (parsed a behind) (some (.ok a, ⟨j, d⟩))
  | stopped {halt : Halt} {j : ℕ} :
      tokens.drop j = halt.stream.toList → i ≤ j →
      Counted tokens k i d (stopped halt) (some (.error halt.error, ⟨j, d + halt.opened⟩))

/-- With enough fuel, a machine follows a parser of streams from every index of the list at the
depth `d`. -/
def Follows (tokens : List PlacedToken) (k d : ℕ) (x : ℕ → Descent α)
    (p : TokenStream → Outcome α) : Prop :=
  ∃ enough, ∀ fuel ≥ enough, ∀ i s, tokens.drop i = s.toList →
    Counted tokens k i d (p s) ((x fuel).runFrom ⟨i, d⟩)

lemma Counted.mono {l j : ℕ} {o : Outcome α} {r : Option (Except SyntaxError α × Counters)}
    (h : Counted tokens k j d o r) (hij : i ≤ j) (hk : i + l ≤ j + k) :
    Counted tokens l i d o r := by
  cases h with
  | parsed hdrop hj => exact .parsed hdrop (hk.trans hj)
  | stopped hdrop hj => exact .stopped hdrop (hij.trans hj)

/-- Two steps in a row follow two parsers in a row. -/
lemma Counted.andThen {l : ℕ} {c : Counters} {o : Outcome α} {x : Descent α}
    {next : α → TokenStream → Outcome β} {f : α → Descent β}
    (h : Counted tokens k i d o (x.runFrom c))
    (hnext : ∀ a behind j, o = .parsed a behind → tokens.drop j = behind.toList → i + k ≤ j →
      Counted tokens l i d (next a behind) ((f a).runFrom ⟨j, d⟩)) :
    Counted tokens l i d (o.andThen next) ((x >>= f).runFrom c) := by
  generalize hrun : x.runFrom c = r at h
  cases h with
  | parsed hdrop hj =>
    rw [runFrom_bind_ok hrun]
    exact hnext _ _ _ rfl hdrop hj
  | stopped hdrop hj =>
    rw [runFrom_bind_error hrun]
    exact .stopped hdrop hj

lemma follows_of_succ {x : ℕ → Descent α} {p : TokenStream → Outcome α} (enough : ℕ)
    (h : ∀ fuel ≥ enough, ∀ i s, tokens.drop i = s.toList →
      Counted tokens k i d (p s) ((x (fuel + 1)).runFrom ⟨i, d⟩)) : Follows tokens k d x p := by
  refine ⟨enough + 1, fun fuel hfuel => ?_⟩
  obtain ⟨fuel, rfl⟩ := Nat.exists_eq_add_one_of_ne_zero (Nat.ne_zero_of_lt hfuel)
  exact h fuel (Nat.le_of_succ_le_succ hfuel)

/-- The outcome leaves no choice of the result. -/
lemma Counted.unique {o : Outcome α} {r r' : Option (Except SyntaxError α × Counters)}
    (h : Counted tokens k i d o r) (h' : Counted tokens k i d o r') : r = r' := by
  have hindex : ∀ {s : TokenStream} {j j' : ℕ}, tokens.drop j = s.toList →
      tokens.drop j' = s.toList → j = j' := by
    intro s j j' hj hj'
    have hlength := length_of_drop_eq hj
    have hlength' := length_of_drop_eq hj'
    omega
  cases h with
  | parsed hj =>
    cases h' with
    | parsed hj' => rw [hindex hj hj']
  | stopped hj =>
    cases h' with
    | stopped hj' => rw [hindex hj hj']

lemma Follows.exists_ends {x : ℕ → Descent α} {p : TokenStream → Outcome α}
    (h : Follows tokens k d x p) (hdrop : tokens.drop i = s.toList) :
    ∃ r, Counted tokens k i d (p s) (some r) ∧ Machine.Ends x ⟨i, d⟩ r := by
  obtain ⟨enough, h⟩ := h
  have hcounted := h enough le_rfl i s hdrop
  obtain ⟨r, hr⟩ : ∃ r, (x enough).runFrom ⟨i, d⟩ = some r := by
    generalize p s = o at hcounted
    generalize (x enough).runFrom ⟨i, d⟩ = r at hcounted ⊢
    cases hcounted <;> exact ⟨_, rfl⟩
  rw [hr] at hcounted
  exact ⟨r, hcounted, enough, fun fuel hfuel => (h fuel hfuel i s hdrop).unique hcounted⟩

lemma counted_refuse {fault : SyntaxFault} {j : ℕ} (h : tokens.drop j = s.toList) (hj : i ≤ j) :
    Counted tokens k i d (Parser.refuse s fault : Outcome α)
      ((refuse tokens fault).runFrom ⟨j, d⟩) := by
  rw [runFrom_refuse h]
  exact .stopped h hj

/-! ## Comparisons -/

lemma counted_operand (missing : Token → SyntaxFault) (h : tokens.drop i = s.toList) :
    Counted tokens 0 i d (Parser.operand missing s) ((operand tokens missing).runFrom ⟨i, d⟩) := by
  rw [operand, runFrom_bind_ok (runFrom_current h)]
  unfold Parser.operand
  cases s.current.token with
  | column | literal => exact .parsed (drop_following h) (le_following tokens i)
  | _ => exact counted_refuse h le_rfl

lemma counted_compareOperands {op : Comparator} {left right : Parser.Operand} {j : ℕ}
    (h : tokens.drop j = s.toList) (hj : i + k ≤ j) :
    Counted tokens k i d (Parser.compareOperands op s left right)
      ((compareOperands op left right).runFrom ⟨j, d⟩) := by
  have hle : i ≤ j := (Nat.le_add_right i k).trans hj
  cases left <;> cases right
  · exact .stopped h hle
  · exact .parsed h hj
  · exact .parsed h hj
  · exact .stopped h hle

/-- What an operand leaves behind, and that it is none of the operators. -/
lemma eq_advance_of_operand {missing : Token → SyntaxFault} {a : Parser.Operand}
    {behind : TokenStream} (h : Parser.operand missing s = .parsed a behind) :
    behind = s.advance ∧ ∀ op, s.current.token ≠ .comparator op := by
  unfold Parser.operand at h
  split at h
  case h_1 htoken | h_2 htoken =>
    cases h
    exact ⟨rfl, fun op hop => by rw [hop] at htoken; cases htoken⟩
  case h_3 => cases h

lemma counted_comparison (h : tokens.drop i = s.toList) :
    Counted tokens 1 i d (Parser.comparison s) ((comparison tokens).runFrom ⟨i, d⟩) := by
  refine (counted_operand .operandExpected h).andThen fun left s₁ j hparsed hj hij => ?_
  obtain ⟨rfl, hcurrent⟩ := eq_advance_of_operand hparsed
  rw [runFrom_bind_ok (runFrom_current hj)]
  cases hop : s.advance.current.token with
  | comparator op =>
    -- the operand was not the last token, or it would be the operator
    have hlater : s.later ≠ [] := by
      intro hlast
      rw [TokenStream.advance, hlast] at hop
      exact hcurrent op hop
    have hlt : i < j := by
      have hlength := length_of_drop_eq h
      have hlength' := length_of_drop_eq hj
      have hshorter := length_later_advance hlater
      omega
    have hle := hlt.trans_le (le_following tokens j)
    have hright := counted_operand (d := d) (.valueExpected op) (drop_following hj)
    refine (hright.mono (l := 1) hle.le hle).andThen ?_
    intro right s₂ j₂ _ hj₂ hij₂
    exact counted_compareOperands hj₂ hij₂
  | _ => exact counted_refuse hj hij

/-! ## Chains -/

variable {c : Connective} {p : TokenStream → Outcome (Expr Reference)}

lemma moreTerms_of_separator {separator : Token} {t : PlacedToken} {ahead : List PlacedToken}
    {done : List (Expr Reference)} (h : s.current.token = separator) :
    Parser.moreTerms separator p (t :: ahead) done s
      = (p s.advance).andThen fun e s => Parser.moreTerms separator p ahead (e :: done) s := by
  rw [Parser.moreTerms, if_pos h]
  cases p s.advance <;> rfl

/-- A loop that may run once for each token that is left is long enough. -/
lemma counted_more {enough : ℕ} (hp : ∀ fuel ≥ enough, ∀ i s, tokens.drop i = s.toList →
      Counted tokens 1 i d (p s) ((link tokens base c fuel).runFrom ⟨i, d⟩))
    (ahead : List PlacedToken) : ∀ fuel ≥ enough + ahead.length, ∀ done i s,
      tokens.drop i = s.toList → s.toList.length ≤ ahead.length →
      Counted tokens 0 i d (Parser.moreTerms c.token p ahead done s)
        ((more tokens base c done fuel).runFrom ⟨i, d⟩) := by
  induction ahead with
  | nil => exact fun _ _ done i s h hlength => absurd hlength (Nat.not_succ_le_zero _)
  | cons t ahead ih =>
    intro fuel hfuel done i s h hlength
    rw [List.length_cons] at hfuel hlength
    obtain ⟨fuel, rfl⟩ := Nat.exists_eq_add_one_of_ne_zero (Nat.ne_zero_of_lt hfuel)
    rw [more, runFrom_bind_ok (runFrom_current h)]
    by_cases hseparator : s.current.token = c.token
    · rw [if_pos hseparator, runFrom_bind_ok runFrom_advance, moreTerms_of_separator hseparator]
      have hle := le_following tokens i
      have hterm := hp fuel (by omega) _ _ (drop_following h)
      refine (hterm.mono hle (Nat.add_le_add_right hle 1)).andThen ?_
      -- a term moves the index on, so one token less is left for the others
      intro e behind j _ hj hij
      have hbefore := length_of_drop_eq h
      have hbehind := length_of_drop_eq hj
      have hahead : behind.toList.length ≤ ahead.length := by
        rw [TokenStream.length_toList] at hlength ⊢
        omega
      exact (ih fuel (by omega) (e :: done) j behind hj hahead).mono (by omega) (by omega)
    · rw [if_neg hseparator, runFrom_pure, Parser.moreTerms, if_neg hseparator]
      exact .parsed h le_rfl

lemma follows_chain (hp : Follows tokens 1 d (link tokens base c) p) :
    Follows tokens 1 d (chain tokens base c) (Parser.chain c.token c.node p) := by
  obtain ⟨enough, hp⟩ := hp
  refine ⟨enough + tokens.length + 1, fun fuel hfuel i s h => ?_⟩
  obtain ⟨fuel, rfl⟩ := Nat.exists_eq_add_one_of_ne_zero (Nat.ne_zero_of_lt hfuel)
  rw [chain, Parser.chain]
  refine (hp fuel (by omega) i s h).andThen fun first s₁ j _ hj hij => ?_
  have hlength := length_of_drop_eq hj
  rw [← TokenStream.length_toList] at hlength
  have hmore := counted_more hp s₁.toList fuel (by omega) [first] j s₁ hj le_rfl
  refine (hmore.mono (by omega) hij).andThen fun terms s₂ j₂ _ hj₂ hij₂ => ?_
  rw [runFrom_pure]
  exact .parsed hj₂ hij₂

lemma follows_conjunction (hp : Follows tokens 1 d (term tokens base) p) :
    Follows tokens 1 d (chain tokens base .and) (Parser.chain .and .and p) := by
  obtain ⟨enough, hp⟩ := hp
  refine follows_chain (follows_of_succ enough fun fuel hfuel i s h => ?_)
  rw [link]
  exact hp fuel hfuel i s h

lemma follows_expression (hp : Follows tokens 1 d (term tokens base) p) :
    Follows tokens 1 d (chain tokens base .or) (Parser.expression p) := by
  obtain ⟨enough, hp⟩ := follows_conjunction hp
  refine follows_chain (follows_of_succ enough fun fuel hfuel i s h => ?_)
  rw [link]
  exact hp fuel hfuel i s h

/-! ## Nesting -/

lemma follows_parenthesized (hp : Follows tokens 1 d (term tokens base) p) :
    Follows tokens 1 d (parenthesized tokens base) (Parser.parenthesized p) := by
  obtain ⟨enough, hexpression⟩ := follows_expression hp
  refine follows_of_succ enough fun fuel hfuel i s h => ?_
  have hinner := drop_following h
  have hle := le_following tokens i
  rw [parenthesized, runFrom_bind_ok (runFrom_current h), runFrom_bind_ok runFrom_advance,
    runFrom_bind_ok (runFrom_current hinner)]
  unfold Parser.parenthesized
  dsimp only
  split_ifs with hempty
  · exact counted_refuse hinner hle
  · have hcounted := hexpression fuel hfuel _ _ hinner
    refine (hcounted.mono hle (Nat.add_le_add_right hle 1)).andThen fun e behind j _ hj hij => ?_
    rw [runFrom_bind_ok (runFrom_current hj)]
    split_ifs with hclosed
    · rw [runFrom_bind_ok runFrom_advance, runFrom_pure]
      exact .parsed (drop_following hj) (hij.trans (le_following tokens j))
    · exact .stopped hj ((Nat.le_succ i).trans hij)

lemma follows_negation (hp : Follows tokens 1 d (term tokens base) p) :
    Follows tokens 1 d (negation tokens base)
      fun s => (p s.advance).andThen fun e s => .parsed (.not e) s := by
  obtain ⟨enough, hp⟩ := hp
  refine follows_of_succ enough fun fuel hfuel i s h => ?_
  have hle := le_following tokens i
  rw [negation, runFrom_bind_ok runFrom_advance]
  have hcounted := hp fuel hfuel _ _ (drop_following h)
  refine (hcounted.mono hle (Nat.add_le_add_right hle 1)).andThen fun e behind j _ hj hij => ?_
  exact .parsed hj hij

/-- What stands in a level, if one may be opened; `n` are the levels that may. -/
def level (n : ℕ) (inside : ℕ → TokenStream → Outcome α) (s : TokenStream) : Outcome α :=
  match n with
  | 0 => (Parser.refuse s (.nestedTooDeep maxNesting)).within
  | n + 1 => (inside n s).within

lemma runFrom_enter (h : tokens.drop i = s.toList) :
    (enter tokens).runFrom ⟨i, d⟩ = if maxNesting ≤ d
      then some (.error ⟨s.current.position, .nestedTooDeep maxNesting⟩, ⟨i, d + 1⟩)
      else some (.ok (), ⟨i, d + 1⟩) := by
  rw [enter, runFrom_bind_ok (runFrom_modify _ _), runFrom_bind_ok (runFrom_get _)]
  simp only [Nat.lt_succ_iff]
  split_ifs
  · exact runFrom_refuse h
  · rfl

lemma runFrom_leave (h : base ≤ d) : (leave base).runFrom ⟨i, d + 1⟩ = some (.ok (), ⟨i, d⟩) := by
  rw [leave, runFrom_bind_ok (runFrom_get _), if_pos (Nat.lt_succ_of_le h), runFrom_modify]
  rfl

/-- A level is closed again if what stands in it has been parsed, and otherwise it stays open. -/
lemma follows_level {n : ℕ} {body : ℕ → Descent α} {inside : ℕ → TokenStream → Outcome α}
    (hbase : base ≤ d) (hd : maxNesting - d = n)
    (hbody : ∀ m, n = m + 1 → Follows tokens k (d + 1) body (inside m)) :
    Follows tokens k d (fun fuel => do enter tokens; let a ← body fuel; leave base; pure a)
      (level n inside) := by
  cases n with
  | zero =>
    refine ⟨0, fun fuel _ i s h => ?_⟩
    have henter := runFrom_enter (d := d) h
    rw [if_pos (by omega)] at henter
    rw [runFrom_bind_error henter]
    exact .stopped h le_rfl
  | succ m =>
    obtain ⟨enough, hbody⟩ := hbody m rfl
    refine ⟨enough, fun fuel hfuel i s h => ?_⟩
    have henter := runFrom_enter (d := d) h
    rw [if_neg (by omega)] at henter
    rw [runFrom_bind_ok henter, level]
    have hcounted := hbody fuel hfuel i s h
    generalize inside m s = o at hcounted ⊢
    generalize hrun : (body fuel).runFrom ⟨i, d + 1⟩ = r at hcounted
    cases hcounted with
    | parsed hdrop hj =>
      rw [runFrom_bind_ok hrun, runFrom_bind_ok (runFrom_leave hbase), runFrom_pure]
      exact .parsed hdrop hj
    | @stopped halt j hdrop hj =>
      rw [runFrom_bind_error hrun, Nat.add_assoc, Nat.add_comm 1]
      exact .stopped hdrop hj

/-- Parse a term that is no negation from a stream. -/
def primaryOf (n : ℕ) (s : TokenStream) : Outcome (Expr Reference) :=
  if s.current.token = .leftParen then level n (fun m => Parser.parenthesized (Parser.term m)) s
  else Parser.comparison s

lemma term_eq (n : ℕ) (s : TokenStream) :
    Parser.term n s = if s.current.token = .not
      then level n (fun m s => (Parser.term m s.advance).andThen fun e s => .parsed (.not e) s) s
      else primaryOf n s := by
  unfold primaryOf
  cases n with
  | zero =>
    rw [Parser.term]
    cases s.current.token <;> rfl
  | succ n =>
    rw [Parser.term]
    cases s.current.token <;> rfl

lemma follows_primary {n : ℕ} (hbase : base ≤ d) (hd : maxNesting - d = n)
    (hterm : ∀ m, n = m + 1 → Follows tokens 1 (d + 1) (term tokens base) (Parser.term m)) :
    Follows tokens 1 d (primary tokens base) (primaryOf n) := by
  obtain ⟨enough, hlevel⟩ :=
    follows_level hbase hd fun m hm => follows_parenthesized (hterm m hm)
  refine follows_of_succ enough fun fuel hfuel i s h => ?_
  rw [primary, runFrom_bind_ok (runFrom_current h), primaryOf]
  split_ifs with hopening
  · exact hlevel fuel hfuel i s h
  · exact counted_comparison h

/-- **A term follows the parser of terms** that may open as many levels as are left at its depth. -/
theorem follows_term (n : ℕ) : ∀ {d}, base ≤ d → maxNesting - d = n →
    Follows tokens 1 d (term tokens base) (Parser.term n) := by
  induction n using Nat.strong_induction_on with
  | h n ih =>
    intro d hbase hd
    have hterm : ∀ m, n = m + 1 → Follows tokens 1 (d + 1) (term tokens base) (Parser.term m) :=
      fun m hm => ih m (by omega) (by omega) (by omega)
    obtain ⟨enough, hlevel⟩ := follows_level hbase hd fun m hm => follows_negation (hterm m hm)
    obtain ⟨enough', hprimary⟩ := follows_primary hbase hd hterm
    refine follows_of_succ (max enough enough') fun fuel hfuel i s h => ?_
    rw [term, runFrom_bind_ok (runFrom_current h), term_eq]
    split_ifs with hnot
    · exact hlevel fuel (le_of_max_le_left hfuel) i s h
    · exact hprimary fuel (le_of_max_le_right hfuel) i s h

/-! ## Whole calls -/

/-- **A call is that of a parser of streams**: it ends with the same answer, at the index where the
stream that is left begins, and at the same depth. -/
theorem ends_parse {p : Parser} (h : tokens.drop i = p.stream.toList) :
    ∃ j, Machine.Ends (parse tokens) ⟨i, p.depth⟩ (p.parse.1, ⟨j, p.parse.2.depth⟩)
      ∧ tokens.drop j = p.parse.2.stream.toList ∧ i ≤ j := by
  rw [Parser.parse]
  by_cases hend : p.stream.current.token = .endOfInput
  · rw [if_pos hend]
    refine ⟨i, ⟨0, fun fuel _ => ?_⟩, h, le_rfl⟩
    rw [parse, runFrom_bind_ok (runFrom_get _), runFrom_bind_ok (runFrom_current h), if_pos hend,
      runFrom_refuse h]
  · rw [if_neg hend]
    obtain ⟨r, hcounted, enough, hchain⟩ :=
      (follows_expression (follows_term _ (le_refl p.depth) rfl)).exists_ends h
    generalize Parser.expression (Parser.term (maxNesting - p.depth)) p.stream = o at hcounted ⊢
    cases hcounted with
    | @parsed e behind j hdrop hj =>
      refine ⟨j, ⟨enough, fun fuel hfuel => ?_⟩, hdrop, (Nat.le_succ i).trans hj⟩
      rw [parse, runFrom_bind_ok (runFrom_get _), runFrom_bind_ok (runFrom_current h), if_neg hend,
        runFrom_bind_ok (hchain fuel hfuel), runFrom_bind_ok (runFrom_current hdrop)]
      dsimp only
      cases behind.current.token with
      | endOfInput => rfl
      | _ => exact runFrom_refuse hdrop
    | @stopped halt j hdrop hj =>
      refine ⟨j, ⟨enough, fun fuel hfuel => ?_⟩, hdrop, hj⟩
      rw [parse, runFrom_bind_ok (runFrom_get _), runFrom_bind_ok (runFrom_current h), if_neg hend,
        runFrom_bind_error (hchain fuel hfuel)]

/-- Behind an error, the levels of a negation and of a parenthesis stay open. -/
example : (parse [⟨.not, 0⟩, ⟨.leftParen, 1⟩, ⟨.endOfInput, 2⟩] 20).runFrom ⟨0, 0⟩
    = some (.error ⟨2, .operandExpected .endOfInput⟩, ⟨2, 2⟩) := by
  rfl

/-- A machine that ends from every index.  It does not go back, and it closes no level that it has
not opened; and if it succeeds, it has closed all that it has opened, and moved on. -/
def Balanced (tokens : List PlacedToken) (base : ℕ) (x : ℕ → Descent α) : Prop :=
  ∀ c, c.index < tokens.length → base ≤ c.depth →
    ∃ answer c₁, Machine.Ends x c (answer, c₁) ∧ c₁.index < tokens.length
      ∧ c.index ≤ c₁.index ∧ c.depth ≤ c₁.depth
      ∧ ∀ a, answer = .ok a → c₁.depth = c.depth ∧ c.index < c₁.index

lemma balanced_of_follows {x : ℕ → Descent α}
    (h : ∀ d, base ≤ d → ∃ p, Follows tokens 1 d x p) : Balanced tokens base x := by
  rintro ⟨i, d⟩ hi hd
  obtain ⟨p, hp⟩ := h d hd
  have hdrop : tokens.drop i = (⟨tokens[i], tokens.drop (i + 1)⟩ : TokenStream).toList :=
    List.drop_eq_getElem_cons hi
  obtain ⟨r, hcounted, hends⟩ := hp.exists_ends hdrop
  generalize p _ = o at hcounted
  cases hcounted with
  | parsed hbehind hj =>
    have hlength := length_of_drop_eq hbehind
    refine ⟨_, _, hends, ?_, (Nat.le_succ i).trans hj, le_rfl, fun a _ => ⟨rfl, hj⟩⟩
    dsimp only
    omega
  | stopped hbehind hj =>
    have hlength := length_of_drop_eq hbehind
    refine ⟨_, _, hends, ?_, hj, Nat.le_add_right .., fun a ha => by cases ha⟩
    dsimp only
    omega

/-- The last token cannot be left behind, so an operand moves on if that is the end of the input. -/
lemma follows_operand (hend : ∀ t ∈ tokens.getLast?, t.token = .endOfInput)
    (missing : Token → SyntaxFault) :
    Follows tokens 1 d (fun _ => operand tokens missing) (Parser.operand missing) := by
  refine ⟨0, fun _ _ i s h => ?_⟩
  have hlater : s.current.token ≠ .endOfInput → s.later ≠ [] := by
    intro hne hlast
    refine hne (hend s.current ?_)
    rw [← List.take_append_drop i tokens, h, TokenStream.toList, hlast]
    exact List.getLast?_concat
  rw [operand, runFrom_bind_ok (runFrom_current h)]
  unfold Parser.operand
  cases htoken : s.current.token with
  | column | literal =>
    exact .parsed (drop_following h) (lt_following h (hlater (by simp [htoken])))
  | _ => exact counted_refuse h le_rfl

/-- The functions of the parser, called in a call that has begun at the depth `base`. -/
structure PartsBalanced (tokens : List PlacedToken) (base : ℕ) : Prop where
  chain : ∀ c, Balanced tokens base (chain tokens base c)
  term : Balanced tokens base (term tokens base)
  primary : Balanced tokens base (primary tokens base)
  comparison : Balanced tokens base fun _ => comparison tokens
  /-- the last token is not left behind, so no operand may stand there -/
  operand : (∀ t ∈ tokens.getLast?, t.token = .endOfInput) →
    ∀ missing, Balanced tokens base fun _ => operand tokens missing

/-- **The functions of the parser leave the depth as they find it**, unless they stop. -/
theorem partsBalanced (tokens : List PlacedToken) (base : ℕ) : PartsBalanced tokens base := by
  have hterm : ∀ {n d}, base ≤ d → maxNesting - d = n →
      Follows tokens 1 d (Descent.term tokens base) (Parser.term n) := follows_term _
  refine ⟨fun c => ?_, ?_, ?_, ?_, fun hend missing => ?_⟩
  · refine balanced_of_follows fun d hd => ?_
    cases c with
    | and => exact ⟨_, follows_conjunction (hterm hd rfl)⟩
    | or => exact ⟨_, follows_expression (hterm hd rfl)⟩
  · exact balanced_of_follows fun d hd => ⟨_, hterm hd rfl⟩
  · refine balanced_of_follows fun d hd => ⟨_, follows_primary hd rfl fun m hm => ?_⟩
    exact hterm (hd.trans (Nat.le_succ d)) (by omega)
  · exact balanced_of_follows fun d hd => ⟨_, 0, fun _ _ i s h => counted_comparison h⟩
  · exact balanced_of_follows fun d hd => ⟨_, follows_operand hend missing⟩

end Descent

end LinkedTables
