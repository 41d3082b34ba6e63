import LinkedTables.Number.Binary64

/-!
# Decimal text of numbers

A finite number is written positionally, whatever its size, with the fewest digits that read back
to it.  Those digits are found by trying one digit, two digits and so on.  Each count of digits
is a grid of decimals, and only the grid's two neighbours of the number need a test: the first
grid with a neighbour that reads back wins, the nearer of two such neighbours is taken, and a tie
goes up.  What reads back is an interval, half of the way to the next number on each side, whose
ends belong to it exactly when the significand is even.  All of it is integer arithmetic.

Literals of a filter show an integral number in full, with one decimal place.
-/

namespace LinkedTables

/-- The decimal `digits / 10 ^ places`. -/
structure Decimal where
  digits : Nat
  places : Nat
deriving DecidableEq, Repr

namespace Decimal

/-- The decimal digits of a natural number, the first one first. -/
def digitsOf (n : Nat) : List Char := Nat.toDigits 10 n

/-- Drop zeros at the end of the decimal places. -/
def trim : (digits places : Nat) → Decimal
  | digits, 0 => ⟨digits, 0⟩
  | digits, places + 1 =>
    if digits % 10 = 0 then trim (digits / 10) places else ⟨digits, places + 1⟩

/-- The positional text: no point if there are no places, and a digit on each side of it
otherwise. -/
def chars (d : Decimal) : List Char :=
  let ds := digitsOf d.digits
  if d.places = 0 then ds
  else
    let padded := List.replicate (d.places + 1 - ds.length) '0' ++ ds
    let whole := padded.length - d.places
    padded.take whole ++ '.' :: padded.drop whole

end Decimal

namespace Binary64

open Decimal (digitsOf)

/-! ## The interval that reads back -/

/-- The lower end of the interval that reads back, in quarters of a unit.  Below the least
significand of a binade the numbers lie twice as close. -/
def lowerEnd (word : Nat) : Nat :=
  let step := Nat.pow 2 (scaleOf word)
  4 * unitsOf word - if word % binade = 0 && binade < word then step else 2 * step

/-- The upper end of the interval that reads back, in quarters of a unit. -/
def upperEnd (word : Nat) : Nat := 4 * unitsOf word + 2 * Nat.pow 2 (scaleOf word)

/-- Whether `num / den` units lie in the interval that reads back to a word. -/
def readsBack (word num den : Nat) : Bool :=
  let low := lowerEnd word * den
  let high := upperEnd word * den
  if word % 2 = 0 then low ≤ 4 * num && 4 * num ≤ high else low < 4 * num && 4 * num < high

/-! ## The fewest digits -/

/-- The number of digits before the decimal point of `units` units; for a value below a tenth it
is minus the number of zeros that follow the point. -/
def pointPosition (units : Nat) : Int :=
  if unitsPerOne ≤ units then (digitsOf (units / unitsPerOne)).length
  else 1 - ((digitsOf ((unitsPerOne - 1) / units)).length : Int)

/-- The decimal `count * 10 ^ exponent`. -/
def onGrid (count : Nat) (exponent : Int) : Decimal :=
  if 0 ≤ exponent then ⟨count * Nat.pow 10 exponent.toNat, 0⟩ else ⟨count, (-exponent).toNat⟩

/-- Whether a decimal reads back to a word. -/
def decimalReadsBack (word : Nat) (d : Decimal) : Bool :=
  readsBack word (d.digits * unitsPerOne) (Nat.pow 10 d.places)

/-- The neighbour of a word's value on the grid of multiples of `10 ^ exponent` that reads back,
if any does; of two the nearer, and the upper one on a tie. -/
def neighbour? (word : Nat) (exponent : Int) : Option Decimal :=
  let num := unitsOf word * Nat.pow 10 (-exponent).toNat
  let den := unitsPerOne * Nat.pow 10 exponent.toNat
  let below := num / den
  let low := onGrid below exponent
  let high := onGrid (below + 1) exponent
  match decimalReadsBack word low, decimalReadsBack word high with
  | false, false => none
  | true, false => some low
  | false, true => some high
  | true, true => if 2 * num < (2 * below + 1) * den then some low else some high

/-- The exact value of a word as a decimal. -/
def exactDecimal (word : Nat) : Decimal := ⟨unitsOf word * Nat.pow 5 1074, 1074⟩

/-- The decimal with the fewest digits that reads back to a word; seventeen digits are enough,
and the exact value stands behind them. -/
def shortestDecimal (word : Nat) : Decimal :=
  let position := pointPosition (unitsOf word)
  let found := (List.range 17).findSome? fun n => neighbour? word (position - (n + 1 : Nat))
  let d := found.getD (exactDecimal word)
  Decimal.trim d.digits d.places

/-! ## Text -/

/-- Put a minus sign in front of the text of a negative number. -/
def signed (x : Binary64) (text : List Char) : List Char :=
  if x.isNegative then '-' :: text else text

/-- The text of a number: the fewest digits that read back, positionally and without a point if
the value is integral. -/
def chars (x : Binary64) : List Char :=
  if x.isNaN then "NaN".toList
  else if x.isFinite then
    if x.magnitudeWord = 0 then x.signed ['0']
    else x.signed (shortestDecimal x.magnitudeWord).chars
  else x.signed "inf".toList

/-- The text of a number as a literal of a filter: an integral one in full with one decimal place,
so that it reads back as a number with a point. -/
def literalChars (x : Binary64) : List Char :=
  if x.isIntegral then x.signed (digitsOf (x.magnitude / unitsPerOne) ++ ['.', '0'])
  else x.chars

end Binary64

end LinkedTables
