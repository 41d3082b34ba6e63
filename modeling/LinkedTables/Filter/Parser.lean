import LinkedTables.Filter.Expr
import LinkedTables.Filter.Reference
import LinkedTables.Filter.Token.Lexer

/-!
# From tokens to filters

The grammar, with the loosest connective first:

```
expression  := conjunction ('|' conjunction)*
conjunction := term ('&' term)*
term        := '~' term | '(' expression ')' | comparison
comparison  := operand operator operand
operand     := column | literal
```

One side of a comparison is a column and the other a literal; a literal on the left is read as the
exchanged comparison.  At most `maxNesting` parentheses and negations may be open at once.  The
recursion is on the number of levels that may still be opened, so it follows the nesting, and a
chain is a loop along the tokens.

A parser can be asked again after an error.  It then goes on from the token it stopped at, and the
levels that were open at that point stay open.
-/

namespace LinkedTables

/-- How many parentheses and negations may be open at once. -/
def maxNesting : Nat := 128

/-- Why and where a parse stops, and how many levels it has opened and not closed by then. -/
structure Halt where
  error : SyntaxError
  opened : Nat
  stream : TokenStream
deriving DecidableEq, Repr

/-- What was parsed and the tokens behind it, or why the parse stops. -/
inductive Outcome (α : Type) where
  | parsed (value : α) (behind : TokenStream)
  | stopped (halt : Halt)

namespace Outcome

variable {α β : Type}

/-- Go on with what was parsed and the tokens behind it. -/
def andThen (outcome : Outcome α) (next : α → TokenStream → Outcome β) : Outcome β :=
  match outcome with
  | parsed value behind => next value behind
  | stopped halt => stopped halt

/-- Count one more open level if the parse stops. -/
def within (outcome : Outcome α) : Outcome α :=
  match outcome with
  | parsed value behind => parsed value behind
  | stopped halt => stopped { halt with opened := halt.opened + 1 }

end Outcome

namespace Parser

open Outcome

/-- Stop at the current token. -/
def refuse {α : Type} (s : TokenStream) (fault : SyntaxFault) : Outcome α :=
  stopped ⟨⟨s.current.position, fault⟩, 0, s⟩

/-! ## Comparisons -/

/-- One side of a comparison. -/
inductive Operand where
  | column (r : Reference)
  | literal (value : Cell) (position : Nat)

/-- Parse a column or a literal; `missing` is the fault if the current token is neither. -/
def operand (missing : Token → SyntaxFault) (s : TokenStream) : Outcome Operand :=
  match s.current.token with
  | .column first rest => parsed (.column (.ofPath first rest s.current.position)) s.advance
  | .literal value => parsed (.literal value s.current.position) s.advance
  | found => refuse s (missing found)

/-- Put the two sides of a comparison together; `behind` are the tokens behind them. -/
def compareOperands (op : Comparator) (behind : TokenStream) :
    Operand → Operand → Outcome (Expr Reference)
  | .column r, .literal value _ => parsed (.compare r op value) behind
  | .literal value _, .column r => parsed (.compare r op.converse value) behind
  | .column _, .column r => stopped ⟨⟨r.position, .twoColumns⟩, 0, behind⟩
  | .literal _ position, .literal _ _ => stopped ⟨⟨position, .noColumn⟩, 0, behind⟩

/-- Parse a comparison. -/
def comparison (s : TokenStream) : Outcome (Expr Reference) :=
  (operand .operandExpected s).andThen fun left s =>
    match s.current.token with
    | .comparator op =>
      (operand (.valueExpected op) s.advance).andThen fun right s => compareOperands op s left right
    | found => refuse s (.operatorExpected found)

/-! ## Chains -/

/-- Parse further terms as long as the separator stands before them, at most one for each token in
`ahead`; `done` holds the terms parsed so far, the last one first. -/
def moreTerms (separator : Token) (term : TokenStream → Outcome (Expr Reference)) :
    (ahead : List PlacedToken) → (done : List (Expr Reference)) → TokenStream →
    Outcome (List (Expr Reference))
  | [], done, s => parsed done.reverse s
  | _ :: ahead, done, s =>
    if s.current.token = separator then
      match term s.advance with
      | stopped halt => stopped halt
      | parsed e s => moreTerms separator term ahead (e :: done) s
    else parsed done.reverse s

/-- A chain of one term is that term. -/
def chainOf (node : List (Expr Reference) → Expr Reference) :
    List (Expr Reference) → Expr Reference
  | [e] => e
  | terms => node terms

/-- Parse a chain of terms.  Every term moves on by at least one token, so the tokens behind the
first term are enough to count the others. -/
def chain (separator : Token) (node : List (Expr Reference) → Expr Reference)
    (term : TokenStream → Outcome (Expr Reference)) (s : TokenStream) :
    Outcome (Expr Reference) :=
  (term s).andThen fun first s =>
    (moreTerms separator term s.toList [first] s).andThen fun terms s =>
      parsed (chainOf node terms) s

/-- Parse a whole expression, given how to parse a term. -/
def expression (term : TokenStream → Outcome (Expr Reference)) :
    TokenStream → Outcome (Expr Reference) :=
  chain .or .or (chain .and .and term)

/-! ## Nesting -/

/-- Parse what stands in parentheses, given how to parse a term in them; `s` begins with the
opening one. -/
def parenthesized (term : TokenStream → Outcome (Expr Reference)) (s : TokenStream) :
    Outcome (Expr Reference) :=
  let inner := s.advance
  if inner.current.token = .rightParen then refuse inner .emptyParentheses
  else
    (expression term inner).andThen fun e behind =>
      if behind.current.token = .rightParen then parsed e behind.advance
      else stopped
        ⟨⟨s.current.position, .unclosedParenthesis behind.current.token⟩, 0, behind⟩

/-- Parse a term in which at most `levels` parentheses and negations are open at once. -/
def term : (levels : Nat) → TokenStream → Outcome (Expr Reference)
  | 0, s =>
    match s.current.token with
    | .not | .leftParen => within (refuse s (.nestedTooDeep maxNesting))
    | _ => comparison s
  | levels + 1, s =>
    match s.current.token with
    | .not => within ((term levels s.advance).andThen fun e s => parsed (.not e) s)
    | .leftParen => within (parenthesized (term levels) s)
    | _ => comparison s

end Parser

/-! ## Whole filters -/

/-- The tokens that are left to parse, and how many levels earlier parses have left open. -/
structure Parser where
  stream : TokenStream
  depth : Nat
deriving DecidableEq, Repr

namespace Parser

/-- A parser for a text. -/
def ofText (text : List Char) : Except SyntaxError Parser := do
  let stream ← tokenize text
  pure ⟨stream, 0⟩

/-- Parse what is left as one filter. -/
def parse (p : Parser) : Except SyntaxError (Expr Reference) × Parser :=
  if p.stream.current.token = .endOfInput then
    (.error ⟨p.stream.current.position, .emptyExpression⟩, p)
  else
    match expression (term (maxNesting - p.depth)) p.stream with
    | .stopped halt => (.error halt.error, ⟨halt.stream, p.depth + halt.opened⟩)
    | .parsed e behind =>
      let answer := match behind.current.token with
        | .endOfInput => .ok e
        | .rightParen => .error ⟨behind.current.position, .unopenedParenthesis⟩
        | found => .error ⟨behind.current.position, .trailing found⟩
      (answer, ⟨behind, p.depth⟩)

end Parser

/-- The filter that a text stands for. -/
def parseFilter (text : String) : Except SyntaxError (Expr Reference) := do
  (← Parser.ofText text.toList).parse.1

end LinkedTables
