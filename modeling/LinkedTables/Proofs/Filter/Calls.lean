import Mathlib
import LinkedTables.Proofs.Filter.Indices
import LinkedTables.Proofs.Filter.Counters
import LinkedTables.Proofs.Filter.Acceptance

/-!
# Any number of calls

A cursor and a parser can be asked again, after an answer as after an error, and then go on from
where they have stopped.  What holds of one call is carried here through all of them.

* A cursor that is asked again and again stays in the text and never goes back
  (`Cursor.within_after`, `Cursor.monotone_position_after`).
* A parser keeps standing at a token of its list and never goes back (`Parser.exists_drop_after`,
  `Parser.monotone_index_after`).  The levels that an error has left open stay open; each call
  closes the levels only that it has opened itself.
* A filter that has been parsed leaves the end of the input, and nothing follows it
  (`Parser.parse_after_ok`).

`calls_inRange` says this together with what a scanner of positions and a parser with an index and a
depth do at each of these calls.
-/

namespace LinkedTables

/-! ## Cursors -/

namespace Cursor

variable {text : List Char} {c : Cursor}

/-- The cursor behind a number of calls. -/
def after (c : Cursor) (n : ℕ) : Cursor := (fun c => c.next.2)^[n] c

lemma after_succ (c : Cursor) (n : ℕ) : c.after (n + 1) = (c.after n).next.2 :=
  Function.iterate_succ_apply' ..

lemma within_after (text : List Char) (n : ℕ) : ((start text).after n).Within text := by
  induction n with
  | zero => exact within_start text
  | succ n ih =>
    rw [after_succ]
    exact ih.next

lemma monotone_position_after (c : Cursor) : Monotone fun n => (c.after n).position := by
  refine monotone_nat_of_le_succ fun n => ?_
  rw [after_succ]
  exact position_le_next _

/-- The cursor stands in the text, and its next call is the one of a scanner of positions, which
ends and takes no slice that the text does not have. -/
structure InRange (text : List Char) (c : Cursor) : Prop where
  within : c.Within text
  scanned : Machine.Ends (Scanner.next text) c.position (c.next.1, c.next.2.position)

lemma Within.inRange (h : c.Within text) : c.InRange text := by
  refine ⟨h, text.length + 1, fun fuel hfuel => ?_⟩
  exact Scanner.runFrom_next h.drop_eq h.position_le hfuel

end Cursor

/-! ## Parsers -/

namespace Parser

variable {tokens : List PlacedToken} {p : Parser}

/-- The parser behind a number of calls. -/
def after (p : Parser) (n : ℕ) : Parser := (fun p => p.parse.2)^[n] p

lemma after_succ (p : Parser) (n : ℕ) : p.after (n + 1) = (p.after n).parse.2 :=
  Function.iterate_succ_apply' ..

/-- The index of the current token in a list that ends in the tokens that are left. -/
def index (tokens : List PlacedToken) (p : Parser) : ℕ := tokens.length - p.stream.toList.length

lemma index_eq {i : ℕ} (h : tokens.drop i = p.stream.toList) : p.index tokens = i := by
  rw [index, Descent.length_of_drop_eq h, TokenStream.length_toList, Nat.add_sub_cancel]

/-- The parser stands at a token of the list. -/
def Within (tokens : List PlacedToken) (p : Parser) : Prop :=
  tokens.drop (p.index tokens) = p.stream.toList

lemma Within.index_lt (h : p.Within tokens) : p.index tokens < tokens.length := by
  have hlength := Descent.length_of_drop_eq h
  omega

/-- A call of a parser is that of one with an index and a depth. -/
lemma Within.ends_parse (h : p.Within tokens) :
    Machine.Ends (Descent.parse tokens) ⟨p.index tokens, p.depth⟩
      (p.parse.1, ⟨p.parse.2.index tokens, p.parse.2.depth⟩)
    ∧ p.parse.2.Within tokens ∧ p.index tokens ≤ p.parse.2.index tokens := by
  obtain ⟨j, hends, hdrop, hj⟩ := Descent.ends_parse h
  obtain rfl := index_eq hdrop
  exact ⟨hends, hdrop, hj⟩

lemma within_after (s : TokenStream) (n : ℕ) : ((⟨s, 0⟩ : Parser).after n).Within s.toList := by
  induction n with
  | zero =>
    have hindex : (⟨s, 0⟩ : Parser).index s.toList = 0 := Nat.sub_self _
    rw [after, Function.iterate_zero_apply, Within, hindex]
    rfl
  | succ n ih =>
    rw [after_succ]
    exact ih.ends_parse.2.1

lemma monotone_index_after (s : TokenStream) :
    Monotone fun n => ((⟨s, 0⟩ : Parser).after n).index s.toList := by
  refine monotone_nat_of_le_succ fun n => ?_
  rw [after_succ]
  exact (within_after s n).ends_parse.2.2

lemma depth_le_parse (p : Parser) : p.depth ≤ p.parse.2.depth := by
  rw [parse]
  split_ifs
  · exact le_rfl
  · split
    · exact Nat.le_add_right ..
    · exact le_rfl

lemma parse_of_endOfInput (h : p.stream.current.token = .endOfInput) :
    p.parse = (.error ⟨p.stream.current.position, .emptyExpression⟩, p) := by
  rw [parse, if_pos h]

/-- Behind a filter that has been parsed nothing is left, however often the parser is asked. -/
lemma parse_after_ok {e : Expr Reference} (h : p.parse.1 = .ok e) (n : ℕ) :
    ∃ position, (p.parse.2.after n).parse.1 = .error ⟨position, .emptyExpression⟩ := by
  obtain ⟨behind, -, hend, hleft⟩ := exists_of_parse h
  have hparse : p.parse.2.parse
      = (.error ⟨behind.current.position, .emptyExpression⟩, p.parse.2) := by
    rw [hleft]
    exact parse_of_endOfInput hend
  have hafter : p.parse.2.after n = p.parse.2 := by
    refine Function.iterate_fixed ?_ n
    rw [hparse]
  rw [hafter, hparse]
  exact ⟨_, rfl⟩

/-- The parser stands at a token of the list, and its next call is the one of a parser with an index
and a depth, which ends and closes no level that was open before.  What the functions of this parser
open in the call they close, unless they stop.  If the call succeeds, nothing is left for others. -/
structure InRange (tokens : List PlacedToken) (p : Parser) : Prop where
  within : p.Within tokens
  index_lt : p.index tokens < tokens.length
  descended : Machine.Ends (Descent.parse tokens) ⟨p.index tokens, p.depth⟩
    (p.parse.1, ⟨p.parse.2.index tokens, p.parse.2.depth⟩)
  depth_le : p.depth ≤ p.parse.2.depth
  parts : Descent.PartsBalanced tokens p.depth
  last : ∀ e, p.parse.1 = .ok e →
    ∀ n, ∃ position, (p.parse.2.after n).parse.1 = .error ⟨position, .emptyExpression⟩

lemma Within.inRange (h : p.Within tokens) : p.InRange tokens :=
  ⟨h, h.index_lt, h.ends_parse.1, depth_le_parse p, Descent.partsBalanced tokens p.depth,
    fun _ hok => parse_after_ok hok⟩

end Parser

/-- **No call leaves its range.**  A cursor stays in the text and does not go back, and at each call
a scanner of positions would end as it does, with every slice in order.  A parser stays on its
tokens and does not go back, and at each call one with an index and a depth would end as it does. -/
theorem calls_inRange :
    (∀ text : List Char, (∀ n, ((Cursor.start text).after n).InRange text)
      ∧ Monotone fun n => ((Cursor.start text).after n).position)
    ∧ ∀ s : TokenStream, (∀ n, ((⟨s, 0⟩ : Parser).after n).InRange s.toList)
      ∧ Monotone fun n => ((⟨s, 0⟩ : Parser).after n).index s.toList :=
  ⟨fun text => ⟨fun n => (Cursor.within_after text n).inRange, Cursor.monotone_position_after _⟩,
    fun s => ⟨fun n => (Parser.within_after s n).inRange, Parser.monotone_index_after s⟩⟩

end LinkedTables
