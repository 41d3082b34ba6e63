/-!
# Structured text

The values of the common structured text format, and a strict reader for them.  Numbers keep how
they are written, except that a natural number in plain digits is known as such: it is the only
kind of number that stored schemas and settings hold.  A text can name one half of a surrogate
pair, which is no character; such a text has no value, and it is up to the place it stands at
whether that matters.

The reader goes through the text once, and takes it apart into symbols with one machine and puts
these together with another.  Each machine takes one step per character or symbol.
-/

namespace LinkedTables

/-- A value of the format. -/
inductive Json where
  | null
  | boolean (b : Bool)
  /-- a natural number in plain digits -/
  | natural (n : Nat)
  /-- any other number, as it is written -/
  | number (written : List Char)
  /-- a text, if it consists of characters -/
  | text (value : Option String)
  | list (items : List Json)
  | object (fields : List (Option String × Json))
deriving Inhabited, Repr

namespace Json

/-! ## Reading fields -/

/-- The value of the only field of a name; `none` if the name stands more than once, and `some none`
if it does not stand at all. -/
def only? (fields : List (Option String × Json)) (name : String) : Option (Option Json) :=
  match fields.filter (·.1 == some name) with
  | [] => some none
  | [field] => some (some field.2)
  | _ => none

/-- The values of the named fields of an object, where other fields do not matter; or the items of
a list that has just as many. -/
def fields? (names : List String) : Json → Option (List (Option Json))
  | object fields =>
    if fields.all (·.1.isSome) then names.mapM (only? fields) else none
  | list items => if items.length = names.length then some (items.map some) else none
  | _ => none

/-- A natural number of 64 bits. -/
def word? : Json → Option Nat
  | natural n => if n < UInt64.size then some n else none
  | _ => none

/-- A text. -/
def text? : Json → Option String
  | text value => value
  | _ => none

/-- A list of values that are all of one kind. -/
def listOf? {α : Type} (item? : Json → Option α) : Json → Option (List α)
  | list items => items.mapM item?
  | _ => none

/-! ## Scalars -/

/-- The characters that a sequence of 16-bit units and characters stands for. -/
def charsOfUnits : List Nat → Option (List Char)
  | [] => some []
  | u :: rest =>
    if 0xD800 ≤ u ∧ u < 0xDC00 then
      match rest with
      | [] => none
      | v :: rest =>
        if 0xDC00 ≤ v ∧ v < 0xE000 then
          (charsOfUnits rest).map (Char.ofNat (0x10000 + (u - 0xD800) * 0x400 + (v - 0xDC00)) :: ·)
        else none
    else if 0xDC00 ≤ u ∧ u < 0xE000 then none
    else (charsOfUnits rest).map (Char.ofNat u :: ·)

/-- Whether a text is a sequence of decimal digits, at least one. -/
def isDigits (cs : List Char) : Bool := !cs.isEmpty && cs.all Char.isDigit

/-- Whether a text is the part of a number from its exponent on; there may be none. -/
def isExponent : List Char → Bool
  | [] => true
  | e :: rest =>
    (e == 'e' || e == 'E') &&
      match rest with
      | '+' :: digits => isDigits digits
      | '-' :: digits => isDigits digits
      | digits => isDigits digits

/-- Whether a text is the part of a number from its point on; there may be none. -/
def isFraction : List Char → Bool
  | '.' :: rest =>
    isDigits (rest.takeWhile Char.isDigit) && isExponent (rest.dropWhile Char.isDigit)
  | rest => isExponent rest

/-- Whether a text is a number without sign: no zero leads other digits. -/
def isUnsigned (cs : List Char) : Bool :=
  let whole := cs.takeWhile Char.isDigit
  isDigits whole && (whole.length == 1 || whole.head? != some '0')
    && isFraction (cs.dropWhile Char.isDigit)

/-- The value that a word stands for. -/
def ofWord (cs : List Char) : Option Json :=
  if cs = "null".toList then some .null
  else if cs = "true".toList then some (.boolean true)
  else if cs = "false".toList then some (.boolean false)
  else if isUnsigned cs then
    some (if cs.all Char.isDigit then
      .natural (cs.foldl (fun n d => 10 * n + (d.toNat - '0'.toNat)) 0) else .number cs)
  else
    match cs with
    | '-' :: rest => if isUnsigned rest then some (.number cs) else none
    | _ => none

/-! ## From characters to symbols -/

/-- A symbol of the text. -/
inductive Symbol where
  | openList | closeList | openObject | closeObject | colon | comma
  | scalar (value : Json)

/-- What the reader of symbols is in the middle of; what it has seen of it is given from the last
part back. -/
inductive Scanning where
  | between
  | word (seen : List Char)
  | quoted (units : List Nat)
  | escape (units : List Nat)
  /-- the digits of an escaped unit: how many there are, and their value -/
  | unit (units : List Nat) (digits value : Nat)

/-- A character of a literal or a number. -/
def isWordChar (c : Char) : Bool := c.isAlphanum || c == '+' || c == '-' || c == '.'

/-- The symbol that a punctuation mark is. -/
def punctuation? : Char → Option Symbol
  | '[' => some .openList
  | ']' => some .closeList
  | '\x7b' => some .openObject
  | '\x7d' => some .closeObject
  | ':' => some .colon
  | ',' => some .comma
  | _ => none

/-- The character that stands behind a backslash for another one. -/
def escaped? : Char → Option Char
  | '"' => some '"'
  | '\\' => some '\\'
  | '/' => some '/'
  | 'b' => some '\x08'
  | 'f' => some '\x0c'
  | 'n' => some '\n'
  | 'r' => some '\r'
  | 't' => some '\t'
  | _ => none

/-- The value of a hexadecimal digit. -/
def hexValue? (c : Char) : Option Nat :=
  if '0' ≤ c && c ≤ '9' then some (c.toNat - '0'.toNat)
  else if 'a' ≤ c && c ≤ 'f' then some (c.toNat - 'a'.toNat + 10)
  else if 'A' ≤ c && c ≤ 'F' then some (c.toNat - 'A'.toNat + 10)
  else none

/-- Take a character between two symbols. -/
def scanBetween (found : List Symbol) (c : Char) : Option (Scanning × List Symbol) :=
  if c == ' ' || c == '\t' || c == '\n' || c == '\r' then some (.between, found)
  else if c == '"' then some (.quoted [], found)
  else if isWordChar c then some (.word [c], found)
  else (punctuation? c).map fun symbol => (.between, symbol :: found)

/-- Take the next character. -/
def scanChar : Scanning × List Symbol → Char → Option (Scanning × List Symbol)
  | (.between, found), c => scanBetween found c
  | (.word seen, found), c =>
    if isWordChar c then some (.word (c :: seen), found)
    else do
      let value ← ofWord seen.reverse
      scanBetween (.scalar value :: found) c
  | (.quoted units, found), c =>
    if c == '"' then
      some (.between, .scalar (.text ((charsOfUnits units.reverse).map String.ofList)) :: found)
    else if c == '\\' then some (.escape units, found)
    else if c.toNat < 0x20 then none
    else some (.quoted (c.toNat :: units), found)
  | (.escape units, found), c =>
    if c == 'u' then some (.unit units 0 0, found)
    else (escaped? c).map fun e => (.quoted (e.toNat :: units), found)
  | (.unit units digits value, found), c => do
    let value := 16 * value + (← hexValue? c)
    pure (if digits = 3 then (.quoted (value :: units), found)
      else (.unit units (digits + 1) value, found))

/-- The symbols of a text. -/
def symbols (cs : List Char) : Option (List Symbol) := do
  match ← cs.foldlM scanChar (.between, []) with
  | (.between, found) => pure found.reverse
  | (.word seen, found) => pure (.scalar (← ofWord seen.reverse) :: found).reverse
  | _ => none

/-! ## From symbols to values -/

/-- A list or an object that is not closed yet, with what it holds so far, the last part first. -/
inductive Pending where
  | items (done : List Json)
  | fields (done : List (Option String × Json)) (key : Option String)

/-- What may come next. -/
inductive Expecting where
  | value
  | valueOrClose
  | key
  | keyOrClose
  | colon
  | commaOrClose
  | nothing (result : Json)

/-- Put a complete value where it belongs. -/
def place (value : Json) : List Pending → Expecting × List Pending
  | [] => (.nothing value, [])
  | .items done :: rest => (.commaOrClose, .items (value :: done) :: rest)
  | .fields done key :: rest => (.commaOrClose, .fields ((key, value) :: done) key :: rest)

/-- Take the next symbol. -/
def takeSymbol : Expecting × List Pending → Symbol → Option (Expecting × List Pending)
  | (.value, stack), .scalar value => some (place value stack)
  | (.valueOrClose, stack), .scalar value => some (place value stack)
  | (.value, stack), .openList => some (.valueOrClose, .items [] :: stack)
  | (.valueOrClose, stack), .openList => some (.valueOrClose, .items [] :: stack)
  | (.value, stack), .openObject => some (.keyOrClose, .fields [] none :: stack)
  | (.valueOrClose, stack), .openObject => some (.keyOrClose, .fields [] none :: stack)
  | (.key, .fields done _ :: stack), .scalar (.text key) =>
    some (.colon, .fields done key :: stack)
  | (.keyOrClose, .fields done _ :: stack), .scalar (.text key) =>
    some (.colon, .fields done key :: stack)
  | (.colon, stack), .colon => some (.value, stack)
  | (.commaOrClose, .items done :: stack), .comma => some (.value, .items done :: stack)
  | (.commaOrClose, .fields done key :: stack), .comma => some (.key, .fields done key :: stack)
  | (.valueOrClose, .items done :: stack), .closeList => some (place (.list done.reverse) stack)
  | (.commaOrClose, .items done :: stack), .closeList => some (place (.list done.reverse) stack)
  | (.keyOrClose, .fields done _ :: stack), .closeObject =>
    some (place (.object done.reverse) stack)
  | (.commaOrClose, .fields done _ :: stack), .closeObject =>
    some (place (.object done.reverse) stack)
  | _, _ => none

/-- The value that a whole text stands for. -/
def read (text : String) : Option Json := do
  match ← (← symbols text.toList).foldlM takeSymbol (.value, []) with
  | (.nothing value, []) => pure value
  | _ => none

end Json

end LinkedTables
