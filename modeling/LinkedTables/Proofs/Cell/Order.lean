import Mathlib
import LinkedTables.Cell
import LinkedTables.Proofs.Number.Nearest

/-!
# The order of numbers

Two integers are compared as such and two floating-point numbers by what they denote.  An integer
and a floating-point number are compared after the integer has been rounded, and this file says what
that changes: the two are equal if the floating-point number is the one nearest to the integer
(`Cell.RoundsTo`), whatever the integer is, and otherwise they are in the order of the two numbers
(`Cell.order?_of_numbers`).

* **Rounding keeps the order** against every number but the nearest one: a number on the other side
  of the nearest one would be nearer itself (`Binary64.IsNearest.compare?_eq`).
* **Beyond `2 ^ 53` integers share their nearest number**, so that two cells are equal to a third
  and not to each other (`Cell.order?_beyond_precision`).
-/

namespace LinkedTables

namespace Binary64

/-- Being nearest is a property of the number, not of its word. -/
lemma IsNearest.of_value?_eq {v : ℚ} {x y : Binary64} (hx : IsNearest v x)
    (h : x.value? = y.value?) : IsNearest v y := by
  obtain ⟨p, hp, hle⟩ := hx
  have hposition := (value_eq_iff hp (h ▸ hp)).1 rfl
  have hxparity := position_emod_two x
  have hyparity := position_emod_two y
  refine ⟨p, h ▸ hp, fun z q hq => (hle z q hq).imp_right fun hmem heq => (hmem heq).imp_right ?_⟩
  omega

/-- The nearest number keeps the order with every other rational number, which would otherwise lie
between the two and be nearer. -/
lemma IsNearest.sides {v p q : ℚ} {x y : Binary64} (hx : IsNearest v x)
    (hp : x.value? = some (p : WithBotTop ℚ)) (hq : y.value? = some (q : WithBotTop ℚ))
    (hne : p ≠ q) : (p < q ↔ v < q) ∧ (q < p ↔ q < v) := by
  have hnear : |v - p| ≤ |v - q| := (hx.spec hp hq).1
  have hlt : p < q → v < q := fun h => by
    by_contra! hv
    rw [abs_of_pos (by linarith), abs_of_nonneg (by linarith)] at hnear
    linarith
  have hgt : q < p → q < v := fun h => by
    by_contra! hv
    rw [abs_of_neg (by linarith), abs_of_nonpos (by linarith)] at hnear
    linarith
  exact ⟨⟨hlt, fun h => hne.lt_or_gt.resolve_right fun h' => (hgt h').not_gt h⟩,
    ⟨hgt, fun h => hne.lt_or_gt.resolve_left fun h' => (hlt h').not_gt h⟩⟩

/-- What a number is nearest to is in its order with every number that is not nearest. -/
lemma IsNearest.compare?_eq {v : ℚ} {x y : Binary64} {q : WithBotTop ℚ} (hx : IsNearest v x)
    (hq : y.value? = some q) (hy : ¬ IsNearest v y) :
    x.compare? y = some (compare (v : WithBotTop ℚ) q) := by
  obtain ⟨p, hp, -⟩ := id hx
  have hne : (p : WithBotTop ℚ) ≠ q := by
    rintro rfl
    exact hy (hx.of_value?_eq (hp.trans hq.symm))
  rw [Binary64.compare?_eq hp hq, Option.some_inj]
  cases q using WithBotTop.rec with
  | bot => rfl
  | top => rfl
  | coe q =>
    obtain ⟨hlt, hgt⟩ := hx.sides hp hq (fun h => hne (h ▸ rfl))
    refine compare_eq_compare ?_ ?_
    · rw [WithBotTop.coe_lt_coe, WithBotTop.coe_lt_coe, hlt]
    · rw [WithBotTop.coe_lt_coe, WithBotTop.coe_lt_coe, hgt]

/-- The order of two numbers the other way round. -/
lemma compare?_swap (x y : Binary64) : y.compare? x = (x.compare? y).map Ordering.swap := by
  simp only [compare?, Bool.or_comm y.isNaN x.isNaN]
  split_ifs
  · rfl
  · rw [Option.map_some, ← Std.OrientedOrd.eq_swap]

end Binary64

namespace Cell

open Binary64 (compare_eq_compare)

/-- The number that a cell holds, if it holds one. -/
def number? : Cell → Option (WithBotTop ℚ)
  | integer n => some ((n.toInt : ℚ) : WithBotTop ℚ)
  | float x => x.value?
  | _ => none

@[simp] lemma number?_integer (n : Int64) :
    (integer n).number? = some ((n.toInt : ℚ) : WithBotTop ℚ) := rfl

@[simp] lemma number?_float (x : Binary64) : (float x).number? = x.value? := rfl

/-- Whether a cell holds an integer and another one the floating-point number nearest to it. -/
def RoundsTo (a b : Cell) : Prop :=
  ∃ n x, a = integer n ∧ b = float x ∧ Binary64.IsNearest n.toInt x

@[simp] lemma roundsTo_integer_float {n : Int64} {x : Binary64} :
    (integer n).RoundsTo (float x) ↔ Binary64.IsNearest n.toInt x := by
  simp [RoundsTo]

@[simp] lemma not_roundsTo_integer {a : Cell} {n : Int64} : ¬ a.RoundsTo (integer n) := by
  simp [RoundsTo]

@[simp] lemma not_float_roundsTo {x : Binary64} {b : Cell} : ¬ (float x).RoundsTo b := by
  simp [RoundsTo]

lemma order?_integer_float (n : Int64) (x : Binary64) :
    (integer n).order? (float x) = (Binary64.ofInt n.toInt).compare? x := rfl

lemma order?_float_integer (x : Binary64) (n : Int64) : (float x).order? (integer n)
    = ((Binary64.ofInt n.toInt).compare? x).map Ordering.swap := Binary64.compare?_swap _ x

/-- What an integer of 64 bits is rounded to. -/
lemma isNearest_toInt (n : Int64) : Binary64.IsNearest n.toInt (.ofInt n.toInt) := by
  have hlow := n.le_toInt
  have hhigh := n.toInt_lt
  exact Binary64.isNearest_ofInt (by omega)

/-- An integer and a floating-point number are compared in the order of the two numbers, or are
equal if the second is the nearest to the first. -/
lemma compare?_ofInt (n : Int64) {x : Binary64} {q : WithBotTop ℚ} (hq : x.value? = some q) :
    (Binary64.IsNearest n.toInt x → (Binary64.ofInt n.toInt).compare? x = some .eq)
      ∧ (¬ Binary64.IsNearest n.toInt x → (Binary64.ofInt n.toInt).compare? x
        = some (compare ((n.toInt : ℚ) : WithBotTop ℚ) q)) := by
  refine ⟨fun hx => ?_, fun hx => (isNearest_toInt n).compare?_eq hq hx⟩
  have hvalue := (isNearest_toInt n).unique hx
  rw [Binary64.compare?_eq (hvalue.trans hq) hq, compare_eq_iff_eq.2 rfl]

/-- **The order of two cells that hold numbers** is that of the numbers, except that an integer is
equal to the floating-point number nearest to it. -/
theorem order?_of_numbers {a b : Cell} {p q : WithBotTop ℚ} (ha : a.number? = some p)
    (hb : b.number? = some q) :
    (a.RoundsTo b ∨ b.RoundsTo a → a.order? b = some .eq)
      ∧ (¬ (a.RoundsTo b ∨ b.RoundsTo a) → a.order? b = some (compare p q)) := by
  cases a with
  | integer m =>
    obtain rfl := Option.some_inj.1 ha
    cases b with
    | integer n =>
      obtain rfl := Option.some_inj.1 hb
      refine ⟨by simp, fun _ => congrArg some (compare_eq_compare ?_ ?_)⟩
      · rw [WithBotTop.coe_lt_coe, Int.cast_lt]
      · rw [WithBotTop.coe_lt_coe, Int.cast_lt]
    | float y => simpa [order?_integer_float] using compare?_ofInt m hb
    | _ => cases hb
  | float x =>
    cases b with
    | integer n =>
      obtain rfl := Option.some_inj.1 hb
      obtain ⟨heq, hne⟩ := compare?_ofInt n ha
      rw [order?_float_integer]
      simp only [not_roundsTo_integer, roundsTo_integer_float, false_or]
      refine ⟨fun h => by rw [heq h]; rfl, fun h => ?_⟩
      rw [hne h, Option.map_some, ← Std.OrientedOrd.eq_swap]
    | float y =>
      exact ⟨by simp, fun _ => Binary64.compare?_eq ha hb⟩
    | _ => cases hb
  | _ => cases ha

/-- The number `2 ^ 53` and the integer that follows it. -/
lemma roundsTo_beyond_precision :
    (float ⟨0x4340000000000000⟩).number?
        = some (((9007199254740992 : ℤ) : ℚ) : WithBotTop ℚ)
      ∧ (integer 9007199254740993).RoundsTo (float ⟨0x4340000000000000⟩) := by
  have hround : Binary64.ofInt 9007199254740993 = ⟨0x4340000000000000⟩ := by
    decide +kernel
  rw [roundsTo_integer_float, number?_float, Binary64.value?_eq_intCast_iff]
  exact ⟨⟨by decide, by decide +kernel⟩, hround ▸ isNearest_toInt 9007199254740993⟩

/-- The integer `2 ^ 53 + 1` is equal to the number `2 ^ 53` and below infinity. -/
theorem order?_of_numbers_integer :
    (integer 9007199254740993).order? (float ⟨0x4340000000000000⟩) = some .eq
      ∧ (integer 9007199254740993).order? (float ⟨0x7FF0000000000000⟩)
        = some (compare (((9007199254740993 : ℤ) : ℚ) : WithBotTop ℚ) ⊤) := by
  obtain ⟨hvalue, hround⟩ := roundsTo_beyond_precision
  have hid : (integer 9007199254740993).number?
      = some (((9007199254740993 : ℤ) : ℚ) : WithBotTop ℚ) := rfl
  have hinfinity : (float ⟨0x7FF0000000000000⟩).number? = some ⊤ := rfl
  have hfar : ¬ (integer 9007199254740993).RoundsTo (float ⟨0x7FF0000000000000⟩) := by
    rw [roundsTo_integer_float]
    rintro ⟨p, hp, -⟩
    exact WithBotTop.coe_ne_top p (Option.some_inj.1 (hp.symm.trans hinfinity))
  exact ⟨(order?_of_numbers hid hvalue).1 (Or.inl hround),
    (order?_of_numbers hid hinfinity).2 (by simp [hfar])⟩

/-- **Two cells that are equal to a third and not to each other.**  The integer `2 ^ 53 + 1` is
equal to the number `2 ^ 53`, which is another number, and so is the integer `2 ^ 53`. -/
theorem order?_beyond_precision :
    ∃ p q : WithBotTop ℚ, (integer 9007199254740993).number? = some p
      ∧ (float ⟨0x4340000000000000⟩).number? = some q ∧ compare p q = .gt
      ∧ (integer 9007199254740993).order? (float ⟨0x4340000000000000⟩) = some .eq
      ∧ (integer 9007199254740992).order? (float ⟨0x4340000000000000⟩) = some .eq
      ∧ (integer 9007199254740993).order? (integer 9007199254740992) = some .gt := by
  refine ⟨_, _, rfl, roundsTo_beyond_precision.1, ?_, by decide +kernel, by decide +kernel,
    by decide⟩
  rw [compare_gt_iff_gt, WithBotTop.coe_lt_coe, Int.cast_lt]
  decide

end Cell

end LinkedTables
