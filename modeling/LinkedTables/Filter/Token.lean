import LinkedTables.Cell.Comparator

/-!
# Tokens of the filter language

A filter is a sequence of tokens.  A dotted path such as `orders.amount` is one token, and so is
a quoted text.  The end of the input is a token of its own, so that an error found there has a
place and something to name.
-/

namespace LinkedTables

/-- A token.  A column path has at least one segment. -/
inductive Token where
  | and
  | or
  | not
  | comparator (op : Comparator)
  | literal (value : Cell)
  | column (first : String) (rest : List String)
  | leftParen
  | rightParen
  | endOfInput
deriving DecidableEq, Inhabited, Repr

namespace Token

/-- How a literal is named in a message: a text stands in single quotes whatever it holds, and a
number has the fewest digits that identify it. -/
def literalText : Cell → String
  | .text s => "'" ++ s ++ "'"
  | .null => "None"
  | value => String.ofList value.chars

/-- How a token is named in a message. -/
def text : Token → String
  | and => "&"
  | or => "|"
  | not => "~"
  | comparator op => op.text
  | literal value => literalText value
  | column first rest => ".".intercalate (first :: rest)
  | leftParen => "("
  | rightParen => ")"
  | endOfInput => "end of input"

end Token

/-- A token and the number of characters in front of it. -/
structure PlacedToken where
  token : Token
  position : Nat
deriving DecidableEq, Inhabited, Repr

end LinkedTables
