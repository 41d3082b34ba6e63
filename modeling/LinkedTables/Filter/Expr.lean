import LinkedTables.Cell.Comparator

/-!
# Filter expressions

A filter is a Boolean combination of comparisons, each between a column and a literal.  The type
of column references is a parameter: a filter as it is read refers to columns by what was written,
and the same filter once bound by the table that owns the column.

A chain such as `x & y & z` is one node with three terms, so that the depth of a filter is that of
its nesting.  Functions that walk a chain therefore carry what they have gathered along and call
themselves last.
-/

namespace LinkedTables

/-- A filter over column references of type `γ`. -/
inductive Expr (γ : Type) where
  | compare (column : γ) (op : Comparator) (literal : Cell)
  | and (terms : List (Expr γ))
  | or (terms : List (Expr γ))
  | not (term : Expr γ)
deriving Repr

namespace Expr

variable {γ δ σ : Type}

/-! ## Column references -/

mutual

/-- Carry a value through all column references, from left to right. -/
def foldColumns (f : σ → γ → σ) (carried : σ) : Expr γ → σ
  | compare column _ _ => f carried column
  | and terms => foldAllColumns f carried terms
  | or terms => foldAllColumns f carried terms
  | not term => foldColumns f carried term

/-- Carry a value through the column references of all terms, from left to right. -/
def foldAllColumns (f : σ → γ → σ) (carried : σ) : List (Expr γ) → σ
  | [] => carried
  | term :: rest => foldAllColumns f (foldColumns f carried term) rest

end

/-- All column references, from left to right. -/
def columns (e : Expr γ) : List γ := (e.foldColumns (fun found c => c :: found) []).reverse

mutual

/-- Replace every column reference by what `f` makes of it, from left to right and with the
effects of `f` in that order. -/
def mapColumnsM {m : Type → Type} [Monad m] (f : γ → m δ) : Expr γ → m (Expr δ)
  | compare column op literal => do return compare (← f column) op literal
  | and terms => do return and (← mapAllColumnsM f [] terms)
  | or terms => do return or (← mapAllColumnsM f [] terms)
  | not term => do return not (← mapColumnsM f term)

/-- Replace every column reference in a list of terms; `done` holds the terms replaced so far, the
last one first. -/
def mapAllColumnsM {m : Type → Type} [Monad m] (f : γ → m δ) (done : List (Expr δ)) :
    List (Expr γ) → m (List (Expr δ))
  | [] => pure done.reverse
  | term :: rest => do
    let replaced ← mapColumnsM f term
    mapAllColumnsM f (replaced :: done) rest

end

/-- Replace every column reference by its value under `f`. -/
def mapColumns (f : γ → δ) (e : Expr γ) : Expr δ := mapColumnsM (m := Id) f e

/-! ## Truth

What a filter says of a single row.  An evaluation works on all rows at once and comes to the same.
-/

mutual

/-- Whether a filter is true when every column reference is read by `cell`. -/
def holds (cell : γ → Cell) : Expr γ → Bool
  | compare column op literal => op.holds (cell column) literal
  | and terms => allHold cell terms
  | or terms => anyHolds cell terms
  | not term => !holds cell term

/-- Whether all terms are true. -/
def allHold (cell : γ → Cell) : List (Expr γ) → Bool
  | [] => true
  | term :: rest => holds cell term && allHold cell rest

/-- Whether one of the terms is true. -/
def anyHolds (cell : γ → Cell) : List (Expr γ) → Bool
  | [] => false
  | term :: rest => holds cell term || anyHolds cell rest

end

/-! ## Text -/

mutual

/-- Write a filter behind the text `out`.  Chains and negations bring their own parentheses. -/
def write (columnText : γ → String) (out : String) : Expr γ → String
  | compare column op literal =>
    out ++ columnText column ++ " " ++ op.text ++ " " ++ String.ofList literal.literalChars
  | and terms => writeAll columnText " & " (out.push '(') terms |>.push ')'
  | or terms => writeAll columnText " | " (out.push '(') terms |>.push ')'
  | not term => write columnText (out ++ "~(") term |>.push ')'

/-- Write terms with a separator between any two behind the text `out`. -/
def writeAll (columnText : γ → String) (separator : String) (out : String) :
    List (Expr γ) → String
  | [] => out
  | term :: rest => writeRest columnText separator (write columnText out term) rest

/-- Write the terms that follow the first one. -/
def writeRest (columnText : γ → String) (separator : String) (out : String) :
    List (Expr γ) → String
  | [] => out
  | term :: rest =>
    writeRest columnText separator (write columnText (out ++ separator) term) rest

end

/-- The text of a filter. -/
def text (columnText : γ → String) (e : Expr γ) : String := e.write columnText ""

end Expr

end LinkedTables
