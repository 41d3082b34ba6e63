import Mathlib
import LinkedTables.Cell
import LinkedTables.Proofs.Cell.Order

/-!
# The join keys of numbers

Two cells that hold numbers have one join key exactly if the numbers are equal, with one exception:
the largest integer and the floating-point number `2 ^ 63`, which is one more, have one key too
(`Cell.joinKey?_of_numbers`).

* **Classes of numbers.**  An integer between `-2 ^ 63` and `2 ^ 63` has the key of an integer,
  whatever kind of cell holds it, and the other numbers, which only floating-point cells hold, have
  their words as keys (`Cell.joinKey?_cases`).
* **The largest integer** is no floating-point number (`Binary64.value?_ne_largest`): the words on
  both sides of it follow each other.  So the two cells that share a key wrongly are of different
  kinds.
-/

namespace LinkedTables

namespace Binary64

/-- A natural number is a multiple of another if nothing remains of the division. -/
lemma natCast_eq_mul_iff {m u : ℕ} {n : ℤ} (hu : 0 < u) :
    (m : ℤ) = n * u ↔ m % u = 0 ∧ ((m / u : ℕ) : ℤ) = n := by
  constructor
  · intro h
    have hu' : (u : ℤ) ≠ 0 := by omega
    rw [← Int.natCast_eq_zero, Int.natCast_mod, Int.natCast_div, h]
    exact ⟨Int.mul_emod_left n u, Int.mul_ediv_cancel n hu'⟩
  · rintro ⟨hmod, rfl⟩
    have hdiv := Nat.div_add_mod' m u
    rw [hmod, Nat.add_zero] at hdiv
    exact_mod_cast hdiv.symm

/-- A number without fractional part denotes what truncation leaves of it. -/
lemma value?_eq_intCast_iff_truncate {x : Binary64} {n : ℤ} :
    x.value? = some ((n : ℚ) : WithBotTop ℚ) ↔ x.isIntegral = true ∧ x.truncate = n := by
  have hpos : 0 < unitsPerOne := Nat.two_pow_pos 1074
  have hmultiple := fun k : ℤ => natCast_eq_mul_iff (m := x.magnitude) (n := k) hpos
  rw [value?_eq_intCast_iff]
  simp only [isIntegral, Bool.and_eq_true, beq_iff_eq, units, truncate, and_assoc]
  refine and_congr_right fun _ => ?_
  split_ifs
  · rw [neg_eq_iff_eq_neg, ← neg_mul, hmultiple, neg_eq_iff_eq_neg]
  · exact hmultiple n

/-- The word of the number that follows the largest integer. -/
lemma value?_past_largest : (⟨0x43E0000000000000⟩ : Binary64).value?
    = some (((2 ^ 63 : ℤ) : ℚ) : WithBotTop ℚ) :=
  value?_eq_intCast_iff.2 ⟨by decide, by decide +kernel⟩

/-- No word denotes the largest integer of 64 bits. -/
lemma value?_ne_largest (x : Binary64) :
    x.value? ≠ some (((2 ^ 63 - 1 : ℤ) : ℚ) : WithBotTop ℚ) := by
  intro hx
  have hbelow : (⟨0x43DFFFFFFFFFFFFF⟩ : Binary64).value?
      = some (((2 ^ 63 - 2 ^ 10 : ℤ) : ℚ) : WithBotTop ℚ) :=
    value?_eq_intCast_iff.2 ⟨by decide, by decide +kernel⟩
  have hlow := (value_lt_iff hbelow hx).1 (by
    rw [WithBotTop.coe_lt_coe, Int.cast_lt]
    decide)
  have hhigh := (value_lt_iff hx value?_past_largest).1 (by
    rw [WithBotTop.coe_lt_coe, Int.cast_lt]
    decide)
  have hnext : (⟨0x43E0000000000000⟩ : Binary64).position
      = (⟨0x43DFFFFFFFFFFFFF⟩ : Binary64).position + 1 := by decide
  omega

end Binary64

namespace Cell

open Binary64 (value?_eq_intCast_iff_truncate value?_ne_largest)

lemma floatKey_eq (x : Binary64) : floatKey x =
    if x.isIntegral = true ∧ -2 ^ 63 ≤ x.truncate ∧ x.truncate ≤ 2 ^ 63
    then .integer (min x.truncate (2 ^ 63 - 1)) else .float x.bits := by
  have hleast : Int64.minValue.toInt = -2 ^ 63 := by decide
  have hlargest : Int64.maxValue.toInt = 2 ^ 63 - 1 := by decide
  simp only [floatKey, hleast, hlargest, Bool.and_eq_true, decide_eq_true_eq, and_assoc,
    sub_add_cancel]

/-- **What key a number has**: that of an integer between `-2 ^ 63` and `2 ^ 63`, and otherwise that
of its word. -/
lemma joinKey?_cases {a : Cell} {p : WithBotTop ℚ} (ha : a.number? = some p) :
    (∃ n : ℤ, p = ((n : ℚ) : WithBotTop ℚ) ∧ -2 ^ 63 ≤ n ∧ n ≤ 2 ^ 63
        ∧ a.joinKey? = some (.integer (min n (2 ^ 63 - 1))))
      ∨ (∃ x, a = float x ∧ a.joinKey? = some (.float x.bits)
        ∧ ∀ n : ℤ, -2 ^ 63 ≤ n → n ≤ 2 ^ 63 → p ≠ ((n : ℚ) : WithBotTop ℚ)) := by
  cases a with
  | integer n =>
    have hlow := n.le_toInt
    have hhigh := n.toInt_lt
    obtain rfl := Option.some_inj.1 ha
    refine Or.inl ⟨n.toInt, rfl, by omega, by omega, ?_⟩
    rw [min_eq_left (by omega)]
    rfl
  | float x =>
    by_cases h : ∃ n : ℤ, -2 ^ 63 ≤ n ∧ n ≤ 2 ^ 63 ∧ p = ((n : ℚ) : WithBotTop ℚ)
    · obtain ⟨n, hlow, hhigh, rfl⟩ := h
      obtain ⟨hintegral, rfl⟩ := value?_eq_intCast_iff_truncate.1 ha
      refine Or.inl ⟨x.truncate, rfl, hlow, hhigh, ?_⟩
      rw [joinKey?, floatKey_eq, if_pos ⟨hintegral, hlow, hhigh⟩]
    · push Not at h
      refine Or.inr ⟨x, rfl, ?_, h⟩
      rw [joinKey?, floatKey_eq, if_neg]
      rintro ⟨hintegral, hlow, hhigh⟩
      have hx := value?_eq_intCast_iff_truncate.2 ⟨hintegral, rfl⟩
      exact h x.truncate hlow hhigh (Option.some_inj.1 (ha.symm.trans hx))
  | _ => cases ha

/-- Only the largest integer is equal to it. -/
lemma number?_eq_largest_iff {a : Cell} :
    a.number? = some (((2 ^ 63 - 1 : ℤ) : ℚ) : WithBotTop ℚ) ↔ a = integer Int64.maxValue := by
  have hlargest : Int64.maxValue.toInt = 2 ^ 63 - 1 := by decide
  cases a with
  | integer n =>
    rw [number?_integer, Option.some_inj, WithBotTop.coe_injective.eq_iff, Int.cast_inj, ← hlargest,
      Int64.toInt_inj, integer.injEq]
  | float x => exact iff_of_false (value?_ne_largest x) nofun
  | _ => exact iff_of_false nofun nofun

/-- **Two numbers have one key** if they are equal, and if they are the largest integer and the
floating-point number that follows it. -/
theorem joinKey?_of_numbers {a b : Cell} {p q : WithBotTop ℚ} (ha : a.number? = some p)
    (hb : b.number? = some q) :
    a.joinKey? = b.joinKey? ↔ p = q
      ∨ (a = integer Int64.maxValue ∧ q = ((2 ^ 63 : ℚ) : WithBotTop ℚ))
      ∨ (p = ((2 ^ 63 : ℚ) : WithBotTop ℚ) ∧ b = integer Int64.maxValue) := by
  have hpow : (2 ^ 63 : ℚ) = ((2 ^ 63 : ℤ) : ℚ) := by norm_num
  have hkeys := joinKey?_cases ha
  have hkeys' := joinKey?_cases hb
  rw [hpow, ← number?_eq_largest_iff, ← number?_eq_largest_iff, ha, hb, Option.some_inj,
    Option.some_inj]
  rcases hkeys with ⟨n, rfl, hlow, hhigh, hkey⟩ | ⟨x, rfl, hkey, hout⟩ <;>
    rcases hkeys' with ⟨m, rfl, hlow', hhigh', hkey'⟩ | ⟨y, rfl, hkey', hout'⟩
  · simp only [hkey, hkey', Option.some_inj, Key.integer.injEq, WithBotTop.coe_injective.eq_iff,
      Int.cast_inj]
    omega
  · refine iff_of_false (by simp [hkey, hkey']) ?_
    rintro (h | ⟨-, h⟩ | ⟨-, h⟩)
    · exact hout' n hlow hhigh h.symm
    · exact hout' (2 ^ 63) (by norm_num) le_rfl h
    · exact hout' (2 ^ 63 - 1) (by norm_num) (by norm_num) h
  · refine iff_of_false (by simp [hkey, hkey']) ?_
    rintro (h | ⟨h, -⟩ | ⟨h, -⟩)
    · exact hout m hlow' hhigh' h
    · exact hout (2 ^ 63 - 1) (by norm_num) (by norm_num) h
    · exact hout (2 ^ 63) (by norm_num) le_rfl h
  · rw [hkey, hkey', Option.some_inj, Key.float.injEq]
    constructor
    · intro hbits
      obtain rfl : x = y := congrArg Binary64.mk hbits
      exact Or.inl (Option.some_inj.1 (ha.symm.trans hb))
    · rintro (rfl | ⟨h, -⟩ | ⟨h, -⟩)
      · have hzero := hout 0 (by norm_num) (by norm_num)
        rw [Int.cast_zero] at hzero
        rw [Binary64.eq_of_value?_eq ha hb hzero]
      · exact absurd h (hout (2 ^ 63 - 1) (by norm_num) (by norm_num))
      · exact absurd h (hout (2 ^ 63) (by norm_num) le_rfl)

/-- The integer five and the number five, and the largest integer and `2 ^ 63`. -/
theorem joinKey?_of_numbers_integer :
    (integer 5).joinKey? = (float ⟨0x4014000000000000⟩).joinKey?
      ∧ (integer Int64.maxValue).joinKey? = (float ⟨0x43E0000000000000⟩).joinKey? := by
  have hfive : (float ⟨0x4014000000000000⟩).number?
      = some (((5 : ℤ) : ℚ) : WithBotTop ℚ) :=
    (number?_float _).trans (Binary64.value?_eq_intCast_iff.2 ⟨by decide, by decide +kernel⟩)
  have hnext := (number?_float _).trans Binary64.value?_past_largest
  have hpow : ((2 ^ 63 : ℤ) : ℚ) = 2 ^ 63 := by norm_num
  rw [hpow] at hnext
  exact ⟨(joinKey?_of_numbers (number?_integer 5) hfive).2 (Or.inl rfl),
    (joinKey?_of_numbers (number?_eq_largest_iff.2 rfl) hnext).2 (Or.inr (Or.inl ⟨rfl, rfl⟩))⟩

/-- **Two numbers that differ and have one key**, the largest integer and `2 ^ 63`. -/
theorem joinKey?_past_largest :
    ∃ p q : WithBotTop ℚ, (integer Int64.maxValue).number? = some p
      ∧ (float ⟨0x43E0000000000000⟩).number? = some q ∧ p ≠ q
      ∧ (integer Int64.maxValue).joinKey? = (float ⟨0x43E0000000000000⟩).joinKey? := by
  refine ⟨_, _, number?_eq_largest_iff.2 rfl, Binary64.value?_past_largest, ?_, by decide +kernel⟩
  rw [WithBotTop.coe_injective.ne_iff]
  norm_num

end Cell

end LinkedTables
