/-!
# Binary floating-point numbers of 64 bits

A number is kept as its word, so that two NaNs with different payloads stay different and the
sign of a zero is not lost.  Everything is computed in exact integers.  The least positive number
is the *unit*, and every finite number is a whole number of units; a one is `2 ^ 1074` of them.
An infinity decodes to more units than any finite number has, so one comparison of integers
orders all numbers that are not NaN.

`nearest` is the rounding that both reading a decimal and converting an integer go through.  The
number of units is divided by the power of two that leaves 53 bits, and the quotient goes to the
nearest integer, a tie to the even one.  The word is then the sum of quotient and shifted power,
because a quotient that reaches `2 ^ 53` carries into the exponent on its own.
-/

namespace LinkedTables

/-- A binary floating-point number of 64 bits, as its word. -/
structure Binary64 where
  bits : UInt64
deriving DecidableEq, Hashable, Inhabited, Repr

namespace Binary64

/-- How many units make a one. -/
def unitsPerOne : Nat := Nat.pow 2 1074

/-- How many words without sign have one exponent, `2 ^ 52`. -/
def binade : Nat := 0x10000000000000

/-- The word of the negative zero, `2 ^ 63`. -/
def signWord : Nat := 0x8000000000000000

/-- The word of positive infinity. -/
def infinityWord : Nat := 2047 * binade

/-! ## Decoding -/

/-- Whether the sign bit is set; a zero has a sign too. -/
def isNegative (x : Binary64) : Bool := signWord ≤ x.bits.toNat

/-- The word without its sign bit. -/
def magnitudeWord (x : Binary64) : Nat := x.bits.toNat % signWord

/-- A word past that of infinity is no number. -/
def isNaN (x : Binary64) : Bool := infinityWord < x.magnitudeWord

/-- Neither NaN nor an infinity. -/
def isFinite (x : Binary64) : Bool := x.magnitudeWord < infinityWord

/-- The significand of a word: the implicit leading bit is missing in the lowest binade only. -/
def significandOf (word : Nat) : Nat :=
  if word < binade then word else binade + word % binade

/-- The power of two that the significand of a word is multiplied by, in units. -/
def scaleOf (word : Nat) : Nat := word / binade - 1

/-- The number of units that a word without sign stands for. -/
def unitsOf (word : Nat) : Nat := significandOf word * Nat.pow 2 (scaleOf word)

/-- The distance from zero, in units. -/
def magnitude (x : Binary64) : Nat := unitsOf x.magnitudeWord

/-- The signed number of units. -/
def units (x : Binary64) : Int := if x.isNegative then -(x.magnitude : Int) else x.magnitude

/-- Whether the number is finite and has no fractional part. -/
def isIntegral (x : Binary64) : Bool := x.isFinite && x.magnitude % unitsPerOne == 0

/-- The number without its fractional part. -/
def truncate (x : Binary64) : Int :=
  let whole := x.magnitude / unitsPerOne
  if x.isNegative then -(whole : Int) else whole

/-! ## Rounding -/

/-- The integer nearest to `num / den`; of two equally near ones the even one. -/
def roundDiv (num den : Nat) : Nat :=
  let quotient := num / den
  match compare (2 * (num % den)) den with
  | .lt => quotient
  | .gt => quotient + 1
  | .eq => if quotient % 2 = 0 then quotient else quotient + 1

/-- The power of two that `num / den` units are divided by to leave at most 53 bits. -/
def shiftFor (num den : Nat) : Nat := (num / den).log2 - 52

/-- The word nearest to `num / den` units, were there no largest exponent. -/
def nearestWord (num den : Nat) : Nat :=
  let shift := shiftFor num den
  shift * binade + roundDiv num (den * Nat.pow 2 shift)

/-- The number with the given sign nearest to `num / den` units, a tie going to the even
significand; beyond the largest finite number it is an infinity. -/
def nearest (negative : Bool) (num den : Nat) : Binary64 :=
  let word := min (nearestWord num den) infinityWord
  ⟨UInt64.ofNat (if negative then signWord + word else word)⟩

/-- The number nearest to an integer. -/
def ofInt (n : Int) : Binary64 := nearest (n < 0) (n.natAbs * unitsPerOne) 1

/-- The number nearest to `digits / 10 ^ places`. -/
def ofDecimal (negative : Bool) (digits places : Nat) : Binary64 :=
  nearest negative (digits * unitsPerOne) (Nat.pow 10 places)

/-! ## Comparison -/

/-- The order of two numbers by value.  NaN has no place in it, and the two zeros are equal. -/
def compare? (x y : Binary64) : Option Ordering :=
  if x.isNaN || y.isNaN then none else some (compare x.units y.units)

end Binary64

end LinkedTables
