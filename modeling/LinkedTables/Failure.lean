import LinkedTables.Filter.Token

/-!
# What can go wrong

A failure names its cause, and carries what its text needs.  The wording is in the `message`
functions alone: one for each group of causes, and `Failure.message` for the whole.
-/

namespace LinkedTables

/-- A table, by its place in the order of registration. -/
abbrev TableId := Nat

/-- How an identifier is shown. -/
def TableId.text (id : TableId) : String := "#" ++ toString (id : Nat)

/-! ## Malformed filters -/

/-- Why a text is not a filter. -/
inductive SyntaxFault where
  /-- `&&` or `||` -/
  | doubledConnective (c : Char)
  /-- `=` alone -/
  | singleEquals
  /-- `!` alone -/
  | singleBang
  | unexpectedCharacter (c : Char)
  /-- a number that a letter, digit or point follows directly -/
  | malformedNumber
  /-- a number that no cell can hold -/
  | numberOutOfRange (written : String)
  | unterminatedText
  /-- a point with no name after it -/
  | nameExpected
  | emptyExpression
  | emptyParentheses
  | unopenedParenthesis
  | unclosedParenthesis (found : Token)
  | trailing (found : Token)
  | operatorExpected (found : Token)
  /-- no left side of a comparison -/
  | operandExpected (found : Token)
  /-- no right side of a comparison -/
  | valueExpected (op : Comparator) (found : Token)
  | twoColumns
  | noColumn
  | nestedTooDeep (limit : Nat)
  /-- a cause that a caller puts into words of its own -/
  | described (text : String)
deriving DecidableEq, Repr

namespace SyntaxFault

/-- How a message says what was found in place of an operand. -/
def foundText : Token → String
  | .endOfInput => "end of input"
  | token => "'" ++ token.text ++ "'"

/-- The wording of a cause. -/
def message : SyntaxFault → String
  | doubledConnective c =>
    let single := String.singleton c
    "unknown operator '" ++ single ++ single ++ "', use '" ++ single ++ "'"
  | singleEquals => "unknown operator '=', use '=='"
  | singleBang => "unknown operator '!', use '~' or '!='"
  | unexpectedCharacter c => "unexpected character '" ++ String.singleton c ++ "'"
  | malformedNumber => "invalid number"
  | numberOutOfRange written => "invalid number '" ++ written ++ "'"
  | unterminatedText => "unterminated string literal"
  | nameExpected => "expected a name after '.'"
  | emptyExpression => "empty expression"
  | emptyParentheses => "empty parentheses"
  | unopenedParenthesis => "unbalanced parentheses: unexpected ')'"
  | unclosedParenthesis found =>
    "unbalanced parentheses: '(' is never closed, found '" ++ found.text ++ "'"
  | trailing found => "unexpected trailing token '" ++ found.text ++ "'"
  | operatorExpected found => "expected a comparison operator, found '" ++ found.text ++ "'"
  | operandExpected found => "expected a column or value, found " ++ foundText found
  | valueExpected op found =>
    "expected a value after '" ++ op.text ++ "', found " ++ foundText found
  | twoColumns => "comparing two columns is not supported, compare a column with a value"
  | noColumn => "comparison needs a column on one side"
  | nestedTooDeep limit => "expression nested deeper than " ++ toString limit ++ " levels"
  | described text => text

end SyntaxFault

/-- A cause, and the number of characters in front of the place it is found at. -/
structure SyntaxError where
  position : Nat
  fault : SyntaxFault
deriving DecidableEq, Repr

/-! ## Tables that cannot be built -/

/-- Why a table cannot be built from what is given. -/
inductive TableFault where
  | duplicateColumn (name : String)
  | rowWidth (row found expected : Nat)
  | columnLength (name : String) (found expected : Nat)
  | maskLength (found rows : Nat)
  | noSuchColumn (name : String)
  /-- a cause that a caller puts into words of its own -/
  | described (text : String)
deriving DecidableEq, Repr

/-- The wording of a cause. -/
def TableFault.message : TableFault → String
  | duplicateColumn name => "duplicate column '" ++ name ++ "'"
  | rowWidth row found expected =>
    "row " ++ toString row ++ " has " ++ toString found ++ " values, expected " ++ toString expected
  | columnLength name found expected =>
    "column '" ++ name ++ "' has " ++ toString found ++ " values, expected " ++ toString expected
  | maskLength found rows =>
    "mask has " ++ toString found ++ " entries for " ++ toString rows ++ " rows"
  | noSuchColumn name => "no column '" ++ name ++ "' to project"
  | described text => text

/-! ## Requests that are refused -/

/-- Why a request is refused. -/
inductive InputFault where
  | tooLong (length limit : Nat)
  | selfRelation (relation table : String)
  /-- an explicit path that comes back to the table being filtered -/
  | leadsHome (relation : String)
  /-- two explicit paths that reach one table over different relations, each given with the table
  it is declared on -/
  | twoWays (table : String) (first second : String × String)
  /-- a cause that a caller puts into words of its own -/
  | described (text : String)
deriving DecidableEq, Repr

/-- The wording of a cause. -/
def InputFault.message : InputFault → String
  | tooLong length limit =>
    "Expression length " ++ toString length ++ " exceeds maximum " ++ toString limit
  | selfRelation relation table =>
    "relation '" ++ relation ++ "' joins table '" ++ table
      ++ "' to itself, self-relations are not supported"
  | leadsHome relation =>
    "relation '" ++ relation ++ "' leads back to the home table, use self.<column>"
  | twoWays table first second =>
    "table '" ++ table ++ "' is reached through both '" ++ first.1 ++ "." ++ first.2 ++ "' and '"
      ++ second.1 ++ "." ++ second.2 ++ "'"
  | described text => text

/-! ## Failures -/

/-- Everything that a call can answer in place of a result. -/
inductive Failure where
  | malformed (error : SyntaxError)
  /-- none of the tables searched has the column -/
  | unknownColumn (column : String) (searched : List String)
  | unknownRelation (relation table : String)
  /-- more than one table in reach has the column -/
  | ambiguousColumn (column : String) (candidates : List String)
  | unreachableTable (table : String)
  | duplicateRelation (relation table : String)
  | duplicateTable (name : String)
  | unknownTable (id : TableId)
  /-- two tables of different workspaces were to be related -/
  | foreignTable
  | invalidTable (fault : TableFault)
  | invalidInput (fault : InputFault)
  | frameTooLarge (rows limit : Nat)
  /-- shared state was left behind by a call that did not finish -/
  | lockPoisoned
deriving DecidableEq, Repr

/-- The text of a failure. -/
def Failure.message : Failure → String
  | malformed error =>
    "Syntax error at position " ++ toString error.position ++ ": " ++ error.fault.message
  | unknownColumn column searched =>
    "Unknown column '" ++ column ++ "' (searched " ++ ", ".intercalate searched ++ ")"
  | unknownRelation relation table =>
    "Unknown relation '" ++ relation ++ "' on table '" ++ table ++ "'"
  | ambiguousColumn column candidates =>
    "Column '" ++ column ++ "' is ambiguous, it exists in tables ["
      ++ ", ".intercalate candidates ++ "]; qualify it as <relation>." ++ column
  | unreachableTable table => "Table '" ++ table ++ "' is not reachable from the home table"
  | duplicateRelation relation table =>
    "Relation '" ++ relation ++ "' is already declared on table '" ++ table ++ "'"
  | duplicateTable name => "Table '" ++ name ++ "' is already registered"
  | unknownTable id => "Unknown table id " ++ toString (id : Nat)
  | foreignTable => "Tables belong to different workspaces"
  | invalidTable fault => "Invalid table: " ++ fault.message
  | invalidInput fault => "Invalid input: " ++ fault.message
  | frameTooLarge rows limit =>
    "Join frame of " ++ toString rows ++ " rows exceeds the limit of " ++ toString limit
  | lockPoisoned => "Lock poisoned"

end LinkedTables
