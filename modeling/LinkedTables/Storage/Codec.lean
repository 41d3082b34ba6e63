/-!
# Binary codecs

A codec writes values as bytes and reads them back from the beginning of a sequence of bytes,
leaving what follows.  Numbers have a fixed width and are written with the low byte first; lists
and texts have their length in front; a choice between constructors is a number; fields follow
each other in order.

Codecs are put together from few parts, and each part reads exactly what it writes.
-/

namespace LinkedTables

/-- A sequence of bytes. -/
abbrev Bytes := List UInt8

/-- A way to write values and to read them back.  Reading gives the value and the bytes behind
it. -/
structure Codec (α : Type) where
  encode : α → Bytes
  decode : Bytes → Option (α × Bytes)

namespace Codec

variable {α β : Type}

/-! ## Numbers -/

/-- The `width` low bytes of a number, the lowest first. -/
def numberBytes : (width : Nat) → Nat → Bytes
  | 0, _ => []
  | width + 1, n => UInt8.ofNat (n % 256) :: numberBytes width (n / 256)

/-- Read `width` bytes as a number, the lowest first. -/
def readNumber : (width : Nat) → Bytes → Option (Nat × Bytes)
  | 0, bytes => some (0, bytes)
  | _ + 1, [] => none
  | width + 1, b :: rest => do
    let (n, rest) ← readNumber width rest
    pure (b.toNat + 256 * n, rest)

/-- Numbers of a fixed width in bytes. -/
def number (width : Nat) : Codec Nat := ⟨numberBytes width, readNumber width⟩

/-- Numbers of 64 bits. -/
def word : Codec Nat := number 8

/-! ## Parts in order -/

/-- One value and then another. -/
def pair (a : Codec α) (b : Codec β) : Codec (α × β) where
  encode x := a.encode x.1 ++ b.encode x.2
  decode bytes := do
    let (x, rest) ← a.decode bytes
    let (y, rest) ← b.decode rest
    pure ((x, y), rest)

/-- The values of another type that correspond to those of a codec.  Reading fails where `make`
does. -/
def mapping (a : Codec α) (take : β → α) (make : α → Option β) : Codec β where
  encode y := a.encode (take y)
  decode bytes := do
    let (x, rest) ← a.decode bytes
    let y ← make x
    pure (y, rest)

/-! ## Sequences -/

/-- Read a number of values one after the other; `done` holds those read so far, the last one
first. -/
def readMany (a : Codec α) (done : List α) : (count : Nat) → Bytes → Option (List α × Bytes)
  | 0, bytes => some (done.reverse, bytes)
  | count + 1, bytes =>
    match a.decode bytes with
    | some (x, rest) => readMany a (x :: done) count rest
    | none => none

/-- Any number of values, behind their number. -/
def list (a : Codec α) : Codec (List α) where
  encode xs := word.encode xs.length ++ xs.flatMap a.encode
  decode bytes := do
    let (count, rest) ← word.decode bytes
    readMany a [] count rest

/-- A text, as its bytes behind their number. -/
def text : Codec String where
  encode s := word.encode s.utf8ByteSize ++ s.toByteArray.toList
  decode bytes := do
    let (size, rest) ← word.decode bytes
    if size ≤ rest.length then
      let s ← String.fromUTF8? ⟨(rest.take size).toArray⟩
      pure (s, rest.drop size)
    else none

/-- A value or none, behind a byte that says which. -/
def option (a : Codec α) : Codec (Option α) where
  encode
    | none => [0]
    | some x => 1 :: a.encode x
  decode
    | [] => none
    | tag :: rest =>
      if tag = 0 then some (none, rest)
      else if tag = 1 then (a.decode rest).map fun (x, rest) => (some x, rest)
      else none

end Codec

end LinkedTables
