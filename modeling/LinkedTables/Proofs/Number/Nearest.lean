import Mathlib
import LinkedTables.Proofs.Number.Value

/-!
# The number nearest to an integer

An integer is compared with a floating-point number by going to the nearest one, and of two that
are equally near to the one whose last bit is zero.  `Binary64.IsNearest` says this of a rational
number by distances alone.

* **Rounding is to the nearest** (`isNearest_ofInt`).  The number of units is divided by a power of
  two and rounded; what is a multiple of that power is no nearer than the rounded quotient, and what
  is not is smaller than all quotients of 53 bits (`exists_mul_or_lt`).
* **There is one nearest number** (`IsNearest.unique`).  Two of them would be equally near and have
  the last bit zero, so a word stands between theirs, and its number is nearer than both.
-/

namespace LinkedTables.Binary64

/-! ## Rounded quotients -/

/-- The rounded quotient is half a divisor away at most, and even where it is that far. -/
lemma roundDiv_spec (num : ℕ) {den : ℕ} (hden : 0 < den) :
    2 * num ≤ 2 * (roundDiv num den * den) + den ∧ 2 * (roundDiv num den * den) ≤ 2 * num + den
      ∧ (2 * num = 2 * (roundDiv num den * den) + den
          ∨ 2 * (roundDiv num den * den) = 2 * num + den → roundDiv num den % 2 = 0) := by
  have hdiv : num / den * den + num % den = num := Nat.div_add_mod' num den
  have hmod : num % den < den := Nat.mod_lt _ hden
  have hsucc : (num / den + 1) * den = num / den * den + den := Nat.succ_mul _ _
  unfold roundDiv
  dsimp only
  rcases Nat.lt_trichotomy (2 * (num % den)) den with h | h | h
  · rw [Nat.compare_eq_lt.2 h]
    dsimp only
    omega
  · rw [Nat.compare_eq_eq.2 h]
    dsimp only
    split_ifs with heven <;> omega
  · rw [Nat.compare_eq_gt.2 h]
    dsimp only
    omega

/-- No other quotient is nearer than the rounded one, and where one is as near that is even. -/
lemma abs_sub_roundDiv_le (num : ℕ) {den : ℕ} (hden : 0 < den) (k : ℕ) :
    |(num : ℤ) - roundDiv num den * den| ≤ |(num : ℤ) - k * den|
      ∧ (|(num : ℤ) - roundDiv num den * den| = |(num : ℤ) - k * den| →
        k = roundDiv num den ∨ roundDiv num den % 2 = 0) := by
  obtain ⟨hlow, hhigh, heven⟩ := roundDiv_spec num hden
  generalize roundDiv num den = q at *
  have hdist : k = q ∨ (q : ℤ) * den + den ≤ k * den ∨ (k : ℤ) * den + den ≤ q * den := by
    rcases Nat.lt_trichotomy k q with h | h | h
    · exact Or.inr (Or.inr (by exact_mod_cast (Nat.succ_mul k den) ▸ Nat.mul_le_mul_right den h))
    · exact Or.inl h
    · exact Or.inr (Or.inl (by exact_mod_cast (Nat.succ_mul q den) ▸ Nat.mul_le_mul_right den h))
  rcases hdist with rfl | hdist
  · exact ⟨le_rfl, fun _ => Or.inl rfl⟩
  · zify at hlow hhigh
    have hle : 2 * |(num : ℤ) - q * den| ≤ den := by
      rcases abs_cases ((num : ℤ) - q * den) with ⟨h, h0⟩ | ⟨h, h0⟩ <;> omega
    have hge : (den : ℤ) ≤ 2 * |(num : ℤ) - k * den| := by
      rcases abs_cases ((num : ℤ) - k * den) with ⟨h, h0⟩ | ⟨h, h0⟩ <;> omega
    refine ⟨by omega, fun heq => Or.inr (heven ?_)⟩
    zify
    rcases abs_cases ((num : ℤ) - q * den) with ⟨h, h0⟩ | ⟨h, h0⟩ <;> omega

/-! ## Rounded words -/

/-- A power of two times a significand, or times one past the greatest. -/
lemma unitsOf_mul_binade_add {shift m : ℕ} (hm : m ≤ 2 ^ 53) (hleast : shift = 0 ∨ 2 ^ 52 ≤ m) :
    unitsOf (shift * binade + m) = m * 2 ^ shift := by
  have hbinade : binade = 0x10000000000000 := rfl
  have hparts : (scaleOf (shift * binade + m) = shift ∧ significandOf (shift * binade + m) = m)
      ∨ (scaleOf (shift * binade + m) = shift + 1
        ∧ significandOf (shift * binade + m) = 2 ^ 52 ∧ m = 2 ^ 53) := by
    simp only [scaleOf, significandOf, hbinade]
    split_ifs <;> omega
  rw [unitsOf_eq]
  rcases hparts with ⟨hscale, hsig⟩ | ⟨hscale, hsig, rfl⟩
  · rw [hscale, hsig]
  · rw [hscale, hsig, Nat.pow_succ]
    ring

/-- What is no multiple of a power of two is smaller than that power times the least significand of
53 bits. -/
lemma exists_mul_or_lt (word shift : ℕ) :
    (∃ k, unitsOf word = k * 2 ^ shift) ∨ shift ≠ 0 ∧ unitsOf word < 2 ^ 52 * 2 ^ shift := by
  rw [unitsOf_eq]
  rcases le_or_gt shift (scaleOf word) with hle | hlt
  · obtain ⟨more, hmore⟩ := Nat.exists_eq_add_of_le hle
    exact Or.inl ⟨significandOf word * 2 ^ more, by rw [hmore, Nat.pow_add]; ring⟩
  · obtain ⟨more, rfl⟩ := Nat.exists_eq_add_of_lt hlt
    refine Or.inr ⟨Nat.succ_ne_zero _, ?_⟩
    have hsig : significandOf word < 2 * 2 ^ 52 := significandOf_lt word
    calc significandOf word * 2 ^ scaleOf word
        < 2 * 2 ^ 52 * 2 ^ scaleOf word := Nat.mul_lt_mul_of_pos_right hsig (Nat.two_pow_pos _)
      _ = 2 ^ 52 * 2 ^ (scaleOf word + 1) := by rw [Nat.pow_succ]; ring
      _ ≤ 2 ^ 52 * 2 ^ (scaleOf word + more + 1) :=
        Nat.mul_le_mul_left _ (Nat.pow_le_pow_right two_pos (by omega))

/-- The shift leaves 53 bits, or there were no more of them. -/
lemma shiftFor_spec (num : ℕ) : num < 2 ^ 53 * 2 ^ shiftFor num 1
    ∧ (shiftFor num 1 = 0 ∨ 2 ^ 52 * 2 ^ shiftFor num 1 ≤ num) := by
  simp only [shiftFor, Nat.div_one, ← Nat.pow_add]
  refine ⟨Nat.lt_log2_self.trans_le (Nat.pow_le_pow_right two_pos (by omega)), ?_⟩
  by_cases hshift : num.log2 - 52 = 0
  · exact Or.inl hshift
  · have hnum : num ≠ 0 := by
      rintro rfl
      simp at hshift
    refine Or.inr ?_
    rw [show 52 + (num.log2 - 52) = num.log2 by omega]
    exact Nat.log2_self_le hnum

lemma nearestWord_eq (num : ℕ) : nearestWord num 1
    = shiftFor num 1 * binade + roundDiv num (2 ^ shiftFor num 1) := by
  rw [nearestWord, Nat.one_mul]
  rfl

/-- The bits that the shift leaves. -/
lemma roundDiv_shiftFor (num : ℕ) : roundDiv num (2 ^ shiftFor num 1) ≤ 2 ^ 53
    ∧ (shiftFor num 1 = 0 ∨ 2 ^ 52 ≤ roundDiv num (2 ^ shiftFor num 1)) := by
  obtain ⟨hlt, hge⟩ := shiftFor_spec num
  have hpow := Nat.two_pow_pos (shiftFor num 1)
  obtain ⟨hlow, hhigh, -⟩ := roundDiv_spec num hpow
  generalize roundDiv num (2 ^ shiftFor num 1) = m at *
  generalize 2 ^ shiftFor num 1 = d at *
  constructor
  · by_contra hmore
    have : (2 ^ 53 + 1) * d ≤ m * d := Nat.mul_le_mul_right d (by omega)
    omega
  · refine hge.imp_right fun hge => ?_
    by_contra hless
    have : (m + 1) * d ≤ 2 ^ 52 * d := Nat.mul_le_mul_right d (by omega)
    rw [Nat.succ_mul] at this
    omega

lemma unitsOf_nearestWord (num : ℕ) : unitsOf (nearestWord num 1)
    = roundDiv num (2 ^ shiftFor num 1) * 2 ^ shiftFor num 1 := by
  obtain ⟨hle, hleast⟩ := roundDiv_shiftFor num
  rw [nearestWord_eq, unitsOf_mul_binade_add hle hleast]

/-- **No word is nearer than the rounded one**, and where another is as near the rounded one is
even. -/
theorem abs_sub_nearestWord_le (num word : ℕ) :
    |(num : ℤ) - unitsOf (nearestWord num 1)| ≤ |(num : ℤ) - unitsOf word|
      ∧ (|(num : ℤ) - unitsOf (nearestWord num 1)| = |(num : ℤ) - unitsOf word| →
        unitsOf word = unitsOf (nearestWord num 1) ∨ nearestWord num 1 % 2 = 0) := by
  have hpow := Nat.two_pow_pos (shiftFor num 1)
  have hquotient := abs_sub_roundDiv_le num hpow
  have hparity : nearestWord num 1 % 2 = roundDiv num (2 ^ shiftFor num 1) % 2 := by
    rw [nearestWord_eq, show binade = 2 * 2 ^ 51 by decide]
    omega
  rw [hparity, unitsOf_nearestWord, Nat.cast_mul]
  rcases exists_mul_or_lt word (shiftFor num 1) with ⟨k, hk⟩ | ⟨hshift, hlt⟩
  · obtain ⟨hle, heven⟩ := hquotient k
    rw [hk, Nat.cast_mul]
    exact ⟨hle, fun heq => (heven heq).imp_left fun h => by rw [h]⟩
  · -- the least number of 53 bits lies between the word and the number, and is no nearer itself
    have hge := (shiftFor_spec num).2.resolve_left hshift
    have hcloser : |(num : ℤ) - (2 ^ 52 : ℕ) * (2 ^ shiftFor num 1 : ℕ)|
        < |(num : ℤ) - unitsOf word| := by
      rw [← Nat.cast_mul, abs_of_nonneg (by omega), abs_of_nonneg (by omega)]
      omega
    have hfar := (hquotient (2 ^ 52)).1.trans_lt hcloser
    exact ⟨hfar.le, fun heq => absurd heq hfar.ne⟩

/-! ## The nearest number -/

/-- A finite number is nearest to a rational one if no finite number is nearer, and if its last bit
is zero where another one is as near. -/
def IsNearest (v : ℚ) (x : Binary64) : Prop :=
  ∃ p : ℚ, x.value? = some (p : WithBotTop ℚ) ∧ ∀ (y : Binary64) (q : ℚ),
    y.value? = some (q : WithBotTop ℚ) →
      |v - p| ≤ |v - q| ∧ (|v - p| = |v - q| → q = p ∨ x.bits.toNat % 2 = 0)

/-- No number of units with a sign is nearer than the rounded one, and where another is as near the
rounded one is even. -/
lemma abs_sub_nearestWord_le_units (num : ℕ) (y : Binary64) {s : ℤ}
    (hs : s = y.units ∨ s = -y.units) :
    |(num : ℤ) - unitsOf (nearestWord num 1)| ≤ |(num : ℤ) - s|
      ∧ (|(num : ℤ) - unitsOf (nearestWord num 1)| = |(num : ℤ) - s| →
        s = unitsOf (nearestWord num 1) ∨ nearestWord num 1 % 2 = 0) := by
  have hsign : s = unitsOf y.magnitudeWord ∨ s = -(unitsOf y.magnitudeWord : ℤ) := by
    simp only [units, magnitude] at hs
    split_ifs at hs <;> omega
  rcases hsign with rfl | rfl
  · exact_mod_cast abs_sub_nearestWord_le num y.magnitudeWord
  · -- zero is between the two numbers
    obtain ⟨hle, heven⟩ := abs_sub_nearestWord_le num 0
    rw [unitsOf_zero] at hle heven
    generalize |(num : ℤ) - unitsOf (nearestWord num 1)| = d at *
    rw [abs_of_nonneg (by omega)] at hle heven ⊢
    refine ⟨by omega, fun heq => (heven (by omega)).imp_left fun h => ?_⟩
    omega

lemma IsNearest.spec {v p q : ℚ} {x y : Binary64} (hx : IsNearest v x)
    (hp : x.value? = some (p : WithBotTop ℚ)) (hq : y.value? = some (q : WithBotTop ℚ)) :
    |v - p| ≤ |v - q| ∧ (|v - p| = |v - q| → q = p ∨ x.bits.toNat % 2 = 0) := by
  obtain ⟨p', hp', hle⟩ := hx
  obtain rfl : p' = p := WithBotTop.coe_injective (Option.some_inj.1 (hp'.symm.trans hp))
  exact hle y q hq

/-- The integers of 64 bits are rounded to finite numbers. -/
lemma nearestWord_lt {n : ℤ} (hn : n.natAbs ≤ 2 ^ 63) :
    nearestWord (n.natAbs * unitsPerOne) 1 < infinityWord := by
  have hpow : ∀ k, n.natAbs * 2 ^ k < 1 * 2 ^ (53 + (k + 11)) := fun k => by
    rw [one_mul, show 53 + (k + 11) = 64 + k by omega, Nat.pow_add]
    exact Nat.mul_lt_mul_of_pos_right (by omega) (Nat.two_pow_pos k)
  have hshift : shiftFor (n.natAbs * unitsPerOne) 1 ≤ 1074 + 11 := shiftFor_le (hpow 1074)
  have hle := (roundDiv_shiftFor (n.natAbs * unitsPerOne)).1
  have hbinade : binade = 2 ^ 52 := by decide
  have hword : shiftFor (n.natAbs * unitsPerOne) 1 * binade ≤ (1074 + 11) * binade :=
    Nat.mul_le_mul_right _ hshift
  rw [nearestWord_eq, infinityWord]
  omega

/-- The word of a rounded integer. -/
lemma ofInt_spec {n : ℤ} (hn : n.natAbs ≤ 2 ^ 63) :
    (ofInt n).magnitudeWord = nearestWord (n.natAbs * unitsPerOne) 1
      ∧ ((ofInt n).isNegative = true ↔ n < 0) := by
  have hlt := nearestWord_lt hn
  have hinfinity : infinityWord < signWord := by decide
  have hsign : signWord = 2 ^ 63 := by decide
  have hbits : (ofInt n).bits.toNat = (if n < 0 then signWord else 0)
      + nearestWord (n.natAbs * unitsPerOne) 1 := by
    simp only [ofInt, nearest, min_eq_left hlt.le, decide_eq_true_eq]
    split_ifs
    · rw [UInt64.toNat_ofNat', Nat.mod_eq_of_lt (by omega)]
    · rw [UInt64.toNat_ofNat', Nat.mod_eq_of_lt (by omega), Nat.zero_add]
  rw [magnitudeWord, isNegative_iff, hbits, hsign]
  split_ifs with hneg
  · exact ⟨by omega, by omega⟩
  · exact ⟨by omega, by omega⟩

/-- **An integer of 64 bits is rounded to the nearest number.** -/
theorem isNearest_ofInt {n : ℤ} (hn : n.natAbs ≤ 2 ^ 63) : IsNearest n (ofInt n) := by
  obtain ⟨hword, hneg⟩ := ofInt_spec hn
  have hfinite : (ofInt n).isFinite = true := by
    rw [isFinite_iff, hword]
    exact nearestWord_lt hn
  refine ⟨_, value?_of_isFinite hfinite, fun y q hq => ?_⟩
  obtain ⟨-, rfl⟩ := value?_eq_coe_iff.1 hq
  have hparity : (ofInt n).bits.toNat % 2 = nearestWord (n.natAbs * unitsPerOne) 1 % 2 := by
    rw [← hword, magnitudeWord, signWord]
    omega
  have hdist : ∀ u : ℤ, |(n : ℚ) - u * unit| = (|n * unitsPerOne - u| : ℤ) * unit := fun u => by
    rw [Int.cast_abs, ← abs_of_pos unit_pos, ← abs_mul, abs_of_pos unit_pos]
    push_cast
    rw [sub_mul, mul_assoc, unitsPerOne_mul_unit, mul_one]
  rw [hdist, hdist, mul_le_mul_iff_left₀ unit_pos, mul_left_inj' unit_pos.ne', Int.cast_le,
    Int.cast_inj, mul_left_inj' unit_pos.ne', Int.cast_inj, hparity]
  rcases lt_or_ge n 0 with hlt | hge
  · -- of a negative integer everything is mirrored
    have hunits : (ofInt n).units = -unitsOf (nearestWord (n.natAbs * unitsPerOne) 1) := by
      rw [units, if_pos (hneg.2 hlt), magnitude, hword]
    have habs : n * unitsPerOne = -(n.natAbs * unitsPerOne : ℕ) := by
      rw [Nat.cast_mul, Int.natCast_natAbs, abs_of_neg hlt, neg_mul, neg_neg]
    have hmirror : ∀ a b : ℤ, |-a - b| = |a - -b| := fun a b => by
      rw [← abs_neg, neg_sub, sub_neg_eq_add, sub_neg_eq_add, add_comm]
    obtain ⟨hle, heven⟩ :=
      abs_sub_nearestWord_le_units (n.natAbs * unitsPerOne) y (Or.inr rfl)
    rw [hunits, habs, hmirror, hmirror, neg_neg, ← neg_eq_iff_eq_neg]
    exact ⟨hle, heven⟩
  · have hunits : (ofInt n).units = unitsOf (nearestWord (n.natAbs * unitsPerOne) 1) := by
      rw [units, if_neg (mt hneg.1 hge.not_gt), magnitude, hword]
    have habs : n * unitsPerOne = (n.natAbs * unitsPerOne : ℕ) := by
      rw [Nat.cast_mul, Int.natCast_natAbs, abs_of_nonneg hge]
    rw [hunits, habs]
    exact abs_sub_nearestWord_le_units (n.natAbs * unitsPerOne) y (Or.inl rfl)

/-- Between the words of two finite numbers that do not follow each other is one more. -/
lemma exists_between {x y : Binary64} {p q : ℚ} (hx : x.value? = some (p : WithBotTop ℚ))
    (hy : y.value? = some (q : WithBotTop ℚ)) (hlt : x.position + 1 < y.position) :
    ∃ (z : Binary64) (r : ℚ), z.value? = some (r : WithBotTop ℚ) ∧ p < r ∧ r < q := by
  have hxbound := position_of_isFinite (value?_eq_coe_iff.1 hx).1
  have hybound := position_of_isFinite (value?_eq_coe_iff.1 hy).1
  have hinfinity : infinityWord < 2 ^ 63 := by decide
  obtain ⟨z, hz⟩ := exists_position (p := x.position + 1) (by omega)
  have hfinite : z.isFinite = true := by
    rw [isFinite_iff]
    rw [position] at hz
    split_ifs at hz <;> omega
  have hr := value?_of_isFinite hfinite
  refine ⟨z, z.units * unit, hr, ?_, ?_⟩
  · rw [← WithBotTop.coe_lt_coe, value_lt_iff hx hr]
    omega
  · rw [← WithBotTop.coe_lt_coe, value_lt_iff hr hy]
    omega

/-- Two nearest numbers would be equally near, with the last bit zero, and a number between them
would be nearer. -/
lemma IsNearest.value_le {v p q : ℚ} {x y : Binary64} (hx : IsNearest v x) (hy : IsNearest v y)
    (hp : x.value? = some (p : WithBotTop ℚ)) (hq : y.value? = some (q : WithBotTop ℚ)) :
    q ≤ p := by
  by_contra! hlt
  obtain ⟨hxle, hxtie⟩ := hx.spec hp hq
  obtain ⟨hyle, hytie⟩ := hy.spec hq hp
  have hdist : |v - p| = |v - q| := le_antisymm hxle hyle
  have hxeven := (hxtie hdist).resolve_left hlt.ne'
  have hyeven := (hytie hdist.symm).resolve_left hlt.ne
  have hposition := (value_lt_iff hp hq).1 (WithBotTop.coe_lt_coe.2 hlt)
  have hxparity := position_emod_two x
  have hyparity := position_emod_two y
  obtain ⟨z, r, hr, hpr, hrq⟩ := exists_between hp hq (by omega)
  have hmiddle : v = (p + q) / 2 := by
    rcases abs_eq_abs.1 hdist with h | h <;> linarith
  have hcloser : |v - r| < |v - p| := by
    rw [hmiddle, abs_of_pos (by linarith : (0 : ℚ) < (p + q) / 2 - p)]
    exact abs_lt.2 ⟨by linarith, by linarith⟩
  exact hcloser.not_ge (hx.spec hp hr).1

/-- **There is one nearest number.** -/
theorem IsNearest.unique {v : ℚ} {x y : Binary64} (hx : IsNearest v x) (hy : IsNearest v y) :
    x.value? = y.value? := by
  obtain ⟨p, hp, -⟩ := id hx
  obtain ⟨q, hq, -⟩ := id hy
  rw [hp, hq, le_antisymm (hy.value_le hx hq hp) (hx.value_le hy hp hq)]

end LinkedTables.Binary64
