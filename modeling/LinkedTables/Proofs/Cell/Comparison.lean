import Mathlib
import LinkedTables.Filter.Parser
import LinkedTables.Proofs.Cell.Keys

/-!
# What comparisons say

The six operators are made of two relations between cells, an order and an equality, which is the
order's except for truth values, and of a rule for null.  This file says what of the usual laws of
an order is left of that.

* **Both sides are exchanged** by exchanging the operator (`Comparator.holds_converse`), because the
  order is that of the exchanged cells turned round (`Cell.order?_swap`), with two numbers of
  different kinds and with NaN too.  So a filter may be written with the literal on the left.
* **The operators exclude and complete one another** as they do for an order.  Truth values have no
  order, so that equal ones are an exception, and null has a rule of its own.
* **Equal keys are equal cells** (`Cell.equal?_of_joinKey?`).  The key of an integer is exact and
  an equality is not, but what is lost by rounding an integer is lost on the side of equality.  The
  converse fails for the same reason.
-/

namespace LinkedTables

namespace Cell

variable {a b : Cell}

/-! ## Both sides exchanged -/

/-- The order of two cells the other way round. -/
lemma order?_swap (a b : Cell) : b.order? a = (a.order? b).map Ordering.swap := by
  cases a with
  | integer m =>
    cases b with
    | integer n => exact congrArg some Std.OrientedOrd.eq_swap
    | float y => exact Binary64.compare?_swap _ _
    | _ => rfl
  | float x =>
    cases b with
    | integer n => exact Binary64.compare?_swap _ _
    | float y => exact Binary64.compare?_swap _ _
    | _ => rfl
  | text s =>
    cases b with
    | text t => exact congrArg some Std.OrientedOrd.eq_swap
    | _ => rfl
  | boolean p => cases b <;> rfl
  | null => cases b <;> rfl

/-- Cells that are neither null nor both truth values are equal if their order says so. -/
lemma equal?_eq_order? (ha : a.isNull = false) (hb : b.isNull = false)
    (hboolean : ¬ ∃ p q, a = boolean p ∧ b = boolean q) :
    a.equal? b = some (a.order? b == some .eq) := by
  cases a with
  | null => simp [isNull] at ha
  | boolean p =>
    cases b with
    | null => simp [isNull] at hb
    | boolean q => exact absurd ⟨p, q, rfl, rfl⟩ hboolean
    | _ => rfl
  | _ =>
    cases b with
    | null => simp [isNull] at hb
    | _ => rfl

lemma equal?_comm (ha : a.isNull = false) (hb : b.isNull = false) : a.equal? b = b.equal? a := by
  by_cases hboolean : ∃ p q, a = boolean p ∧ b = boolean q
  · obtain ⟨p, q, rfl, rfl⟩ := hboolean
    exact congrArg some Bool.beq_comm
  · have hboolean' : ¬ ∃ p q, b = boolean p ∧ a = boolean q := by
      rintro ⟨p, q, hp, hq⟩
      exact hboolean ⟨q, p, hq, hp⟩
    rw [equal?_eq_order? ha hb hboolean, equal?_eq_order? hb ha hboolean', order?_swap a b]
    rcases a.order? b with _ | _ | _ | _ <;> rfl

/-- Truth values have no order. -/
lemma order?_boolean (p q : Bool) : (boolean p).order? (boolean q) = none := rfl

end Cell

namespace Comparator

variable {a b : Cell}

lemma holds_of_values (op : Comparator) (ha : a.isNull = false) (hb : b.isNull = false) :
    op.holds a b = op.holdsForValues a b := by
  rw [holds, ha, hb]

/-- **An operator says of exchanged cells what its converse says.** -/
lemma holds_converse (op : Comparator) (ha : a.isNull = false) (hb : b.isNull = false) :
    op.converse.holds b a = op.holds a b := by
  rw [holds_of_values op ha hb, holds_of_values op.converse hb ha]
  cases op with
  | eq => simp [converse, holdsForValues, Cell.equal?_comm ha hb]
  | ne => simp [converse, holdsForValues, Cell.equal?_comm ha hb]
  | _ => simp [converse, holdsForValues, Cell.order?_swap a b, Option.any_map]

/-- The operators for cells in an order say where the order is. -/
lemma holds_of_order? (ha : a.isNull = false) (hb : b.isNull = false) :
    lt.holds a b = (a.order? b).any Ordering.isLT ∧ le.holds a b = (a.order? b).any Ordering.isLE
      ∧ gt.holds a b = (a.order? b).any Ordering.isGT
      ∧ ge.holds a b = (a.order? b).any Ordering.isGE := by
  simp [holds_of_values, ha, hb, holdsForValues]

lemma eq_holds_of_order? (ha : a.isNull = false) (hb : b.isNull = false)
    (hboolean : ¬ ∃ p q, a = .boolean p ∧ b = .boolean q) :
    eq.holds a b = (a.order? b).any Ordering.isEq := by
  rw [holds_of_values eq ha hb, holdsForValues, Cell.equal?_eq_order? ha hb hboolean]
  rcases a.order? b with _ | _ | _ | _ <;> rfl

lemma ne_holds (ha : a.isNull = false) (hb : b.isNull = false) :
    ne.holds a b = !eq.holds a b := by
  rw [holds_of_values ne ha hb, holds_of_values eq ha hb]
  rfl

/-- Two cells are not in two of the relations that an order has. -/
lemma countP_holds_le_one (ha : a.isNull = false) (hb : b.isNull = false) :
    [lt, eq, gt].countP (·.holds a b) ≤ 1 := by
  obtain ⟨hlt, -, hgt, -⟩ := holds_of_order? ha hb
  by_cases hboolean : ∃ p q, a = .boolean p ∧ b = .boolean q
  · -- truth values have no order
    obtain ⟨p, q, rfl, rfl⟩ := hboolean
    rw [Cell.order?_boolean] at hlt hgt
    simp only [List.countP_cons, List.countP_nil, hlt, hgt]
    cases eq.holds (.boolean p) (.boolean q) <;> decide
  · have heq := eq_holds_of_order? ha hb hboolean
    simp only [List.countP_cons, List.countP_nil, hlt, heq, hgt]
    rcases a.order? b with _ | _ | _ | _ <;> decide

/-- Null is equal to null, and every other cell is different from it. -/
lemma holds_null_iff (h : a.isNull = true ∨ b.isNull = true) (op : Comparator) :
    op.holds a b = true
      ↔ (a.isNull = true ∧ b.isNull = true ∧ op = eq)
        ∨ (a.isNull = false ∧ b.isNull = true ∧ op = ne) := by
  rw [holds]
  cases ha : a.isNull <;> cases hb : b.isNull <;> simp_all

/-- **The laws of comparisons.**  For cells that are not null an operator says what its converse
says of the exchanged cells, a difference is no equality, the relations of an order exclude one
another, and unless the cells are truth values the weak ones are those where one of two others
holds.  A comparison with the literal on the left means what is written.  With null only an equality
of nulls holds, and the difference of a cell from the null it is compared with. -/
theorem holds_laws (a b : Cell) :
    (a.isNull = false → b.isNull = false →
        (∀ op : Comparator, op.holds a b = op.converse.holds b a)
          ∧ ne.holds a b = !eq.holds a b
          ∧ [lt, eq, gt].countP (·.holds a b) ≤ 1
          ∧ ((¬ ∃ p q, a = .boolean p ∧ b = .boolean q) →
            le.holds a b = (lt.holds a b || eq.holds a b)
              ∧ ge.holds a b = (gt.holds a b || eq.holds a b))
          ∧ ∀ (op : Comparator) (first : String) (rest : List String) (p q r : ℕ)
            (behind : TokenStream), ∃ e, Parser.comparison
                (((behind.push ⟨.column first rest, r⟩).push ⟨.comparator op, q⟩).push
                  ⟨.literal a, p⟩) = .parsed e behind
              ∧ ∀ cell : Reference → Cell, cell (.ofPath first rest r) = b →
                e.holds cell = op.holds a b)
      ∧ (a.isNull = true ∨ b.isNull = true → ∀ op : Comparator, op.holds a b = true
        ↔ (a.isNull = true ∧ b.isNull = true ∧ op = eq)
          ∨ (a.isNull = false ∧ b.isNull = true ∧ op = ne)) := by
  refine ⟨fun ha hb => ⟨fun op => (holds_converse op ha hb).symm, ne_holds ha hb,
    countP_holds_le_one ha hb, fun hboolean => ?_, ?_⟩, holds_null_iff⟩
  · obtain ⟨hlt, hle, hgt, hge⟩ := holds_of_order? ha hb
    rw [hlt, hle, hgt, hge, eq_holds_of_order? ha hb hboolean]
    rcases a.order? b with _ | _ | _ | _ <;> decide
  · intro op first rest p q r behind
    refine ⟨.compare (.ofPath first rest r) op.converse a, rfl, fun cell hcell => ?_⟩
    rw [Expr.holds, hcell, holds_converse op ha hb]

/-- An integer and the number nearest to it, which is another one, and the same integer and null. -/
theorem holds_laws_rounded :
    ∃ a b : Cell, a = .integer 9007199254740993 ∧ b = .float ⟨0x4340000000000000⟩
      ∧ eq.holds a b = true ∧ le.holds a b = true
      ∧ (∀ op : Comparator, op.holds a b = op.converse.holds b a)
      ∧ ne.holds a b = (!eq.holds a b) ∧ le.holds a b = (lt.holds a b || eq.holds a b)
      ∧ ∀ op : Comparator, op.holds a .null = true ↔ op = ne := by
  obtain ⟨hvalues, -⟩ :=
    holds_laws (.integer 9007199254740993) (.float ⟨0x4340000000000000⟩)
  obtain ⟨-, hnull⟩ := holds_laws (.integer 9007199254740993) .null
  obtain ⟨hconverse, hne, -, hweak, -⟩ := hvalues rfl rfl
  obtain ⟨hle, -⟩ := hweak (by simp)
  have heq : eq.holds (.integer 9007199254740993) (.float ⟨0x4340000000000000⟩) = true := by
    decide +kernel
  refine ⟨_, _, rfl, rfl, heq, by simp [hle, heq], hconverse, hne, hle, fun op => ?_⟩
  simpa [Cell.isNull] using hnull (Or.inr rfl) op

end Comparator

namespace Cell

variable {a b : Cell}

/-! ## Equal keys -/

/-- Whether the cell holds what is no number. -/
def isNaN : Cell → Bool
  | float x => x.isNaN
  | _ => false

/-- The key of a floating-point number says of what kind it is. -/
lemma floatKey_cases (x : Binary64) :
    (∃ n, floatKey x = .integer n) ∨ floatKey x = .float x.bits := by
  rw [floatKey_eq]
  split_ifs
  · exact Or.inl ⟨_, rfl⟩
  · exact Or.inr rfl

/-- **A key that is no integer** is that of one cell only. -/
lemma eq_of_joinKey?_eq {key : Key} (ha : a.joinKey? = some key) (hb : b.joinKey? = some key)
    (hkey : ∀ n, key ≠ .integer n) : a = b := by
  have hfloat : ∀ x, (float x).joinKey? = some key → key = .float x.bits := by
    intro x hx
    have hx : floatKey x = key := Option.some_inj.1 hx
    rcases floatKey_cases x with ⟨n, hn⟩ | hbits
    · exact absurd (hx.symm.trans hn) (hkey n)
    · exact hx.symm.trans hbits
  cases a with
  | null => cases ha
  | integer n => exact absurd (Option.some_inj.1 ha).symm (hkey n.toInt)
  | float x =>
    obtain rfl := hfloat x ha
    cases b with
    | float y => exact congrArg (fun bits => float ⟨bits⟩) (Key.float.inj (hfloat y hb))
    | _ => cases hb
  | text s =>
    cases ha
    cases b with
    | float y => cases hfloat y hb
    | text t => simpa [joinKey?, eq_comm] using hb
    | _ => cases hb
  | boolean p =>
    cases ha
    cases b with
    | float y => cases hfloat y hb
    | boolean q => simpa [joinKey?, eq_comm] using hb
    | _ => cases hb

/-- **The key of an integer** is that of cells that hold this integer, or one more if it is the
largest. -/
lemma exists_number?_of_joinKey? {n : ℤ} (ha : a.joinKey? = some (.integer n)) :
    ∃ m : ℤ, a.number? = some ((m : ℚ) : WithBotTop ℚ) ∧ m ≤ 2 ^ 63
      ∧ n = min m (2 ^ 63 - 1) := by
  cases a with
  | integer k =>
    have hlt := k.toInt_lt
    cases ha
    exact ⟨k.toInt, rfl, by omega, by omega⟩
  | float x =>
    have hx : floatKey x = .integer n := Option.some_inj.1 ha
    rw [floatKey_eq] at hx
    split_ifs at hx with hrange
    obtain ⟨hintegral, -, hhigh⟩ := hrange
    cases hx
    exact ⟨x.truncate, Binary64.value?_eq_intCast_iff_truncate.2 ⟨hintegral, rfl⟩, hhigh, rfl⟩
  | _ => cases ha

/-- Cells that hold one number are equal in their order. -/
lemma order?_of_number?_eq {p : WithBotTop ℚ} (ha : a.number? = some p)
    (hb : b.number? = some p) : a.order? b = some .eq := by
  have hmixed : ∀ (n : Int64) (x : Binary64), (integer n).number? = some p → x.value? = some p →
      (integer n).order? (float x) = some .eq := by
    intro n x hn hx
    cases hn
    obtain ⟨hnear, hfar⟩ := compare?_ofInt n hx
    rw [order?_integer_float]
    by_cases hround : Binary64.IsNearest n.toInt x
    · exact hnear hround
    · rw [hfar hround, compare_eq_iff_eq.2 rfl]
  cases a with
  | integer m =>
    cases b with
    | integer n =>
      have heq : m.toInt = n.toInt := by
        have hcast := (Option.some_inj.1 ha).trans (Option.some_inj.1 hb).symm
        exact_mod_cast WithBotTop.coe_injective hcast
      exact congrArg some (compare_eq_iff_eq.2 heq)
    | float y => exact hmixed m y ha hb
    | _ => cases hb
  | float x =>
    cases b with
    | integer n => rw [order?_swap, hmixed n x hb ha, Option.map_some, Ordering.swap_eq]
    | float y => exact (Binary64.compare?_eq ha hb).trans (congrArg some (compare_eq_iff_eq.2 rfl))
    | _ => cases hb
  | _ => cases ha

/-- The number that follows the largest integer is equal to it in their order, because the integer
is rounded to this number. -/
lemma order?_past_largest (ha : a.number? = some (((2 ^ 63 - 1 : ℤ) : ℚ) : WithBotTop ℚ))
    (hb : b.number? = some (((2 ^ 63 : ℤ) : ℚ) : WithBotTop ℚ)) : a.order? b = some .eq := by
  obtain rfl := number?_eq_largest_iff.1 ha
  cases b with
  | integer n =>
    have hlt := n.toInt_lt
    have heq : n.toInt = 2 ^ 63 := by
      exact_mod_cast WithBotTop.coe_injective (Option.some_inj.1 hb)
    omega
  | float y =>
    have hne : (((2 ^ 63 : ℤ) : ℚ) : WithBotTop ℚ) ≠ ((0 : ℚ) : WithBotTop ℚ) :=
      WithBotTop.coe_injective.ne (by norm_num)
    obtain rfl := Binary64.eq_of_value?_eq hb Binary64.value?_past_largest hne
    decide +kernel
  | _ => cases hb

/-- Cells with the key of an integer are equal in their order. -/
lemma order?_of_joinKey?_integer {n : ℤ} (ha : a.joinKey? = some (.integer n))
    (hb : b.joinKey? = some (.integer n)) : a.order? b = some .eq := by
  obtain ⟨m, hm, hle, hn⟩ := exists_number?_of_joinKey? ha
  obtain ⟨m', hm', hle', hn'⟩ := exists_number?_of_joinKey? hb
  have hcases : m = m' ∨ (m = 2 ^ 63 - 1 ∧ m' = 2 ^ 63) ∨ (m' = 2 ^ 63 - 1 ∧ m = 2 ^ 63) := by
    omega
  rcases hcases with rfl | ⟨rfl, rfl⟩ | ⟨rfl, rfl⟩
  · exact order?_of_number?_eq hm hm'
  · exact order?_past_largest hm hm'
  · rw [order?_swap, order?_past_largest hm' hm, Option.map_some, Ordering.swap_eq]

lemma isNull_of_joinKey? {key : Key} (h : a.joinKey? = some key) : a.isNull = false := by
  cases a with
  | null => cases h
  | _ => rfl

lemma isNaN_of_number? {p : WithBotTop ℚ} (h : a.number? = some p) : a.isNaN = false := by
  cases a with
  | float x => simpa [isNaN] using Binary64.not_isNaN_of_value? h
  | _ => rfl

/-- Cells with the key of an integer are equal, and neither of them is NaN. -/
lemma equal?_of_joinKey?_integer {n : ℤ} (ha : a.joinKey? = some (.integer n))
    (hb : b.joinKey? = some (.integer n)) :
    a.isNaN = false ∧ b.isNaN = false ∧ a.equal? b = some true := by
  obtain ⟨m, hm, -⟩ := exists_number?_of_joinKey? ha
  obtain ⟨m', hm', -⟩ := exists_number?_of_joinKey? hb
  have hboolean : ¬ ∃ p q, a = boolean p ∧ b = boolean q := by
    rintro ⟨p, q, rfl, -⟩
    cases ha
  refine ⟨isNaN_of_number? hm, isNaN_of_number? hm', ?_⟩
  rw [equal?_eq_order? (isNull_of_joinKey? ha) (isNull_of_joinKey? hb) hboolean,
    order?_of_joinKey?_integer ha hb]
  rfl

/-- A cell is equal to itself unless it is null or holds what is no number. -/
lemma equal?_self (ha : a.isNull = false) : a.equal? a = some !a.isNaN := by
  cases a with
  | null => simp [isNull] at ha
  | boolean p => simp [equal?, isNaN]
  | integer n => simp [equal?, order?, isNaN]
  | text s => simp [equal?, order?, isNaN]
  | float x =>
    have hself : x.compare? x = if x.isNaN then none else some .eq := by
      simp [Binary64.compare?]
    have hequal : (float x).equal? (float x) = some (x.compare? x == some .eq) := rfl
    rw [hequal, hself, isNaN]
    cases x.isNaN <;> rfl

/-- **Cells with one key are equal**, which is what a filter means by `==`.  The exception is what
is no number: it has the key of its word, so that it meets itself, and is not equal to itself. -/
theorem equal?_of_joinKey? {key : Key} (ha : a.joinKey? = some key) (hb : b.joinKey? = some key) :
    (a.isNaN = false ∧ b.isNaN = false →
        a.equal? b = some true ∧ Comparator.eq.holds a b = true)
      ∧ (a.isNaN = true ∨ b.isNaN = true →
        a = b ∧ a.equal? b = some false ∧ Comparator.eq.holds a b = false) := by
  have hholds : Comparator.eq.holds a b = (a.equal? b == some true) :=
    Comparator.holds_of_values .eq (isNull_of_joinKey? ha) (isNull_of_joinKey? hb)
  rw [hholds]
  by_cases hkey : ∃ n, key = .integer n
  · obtain ⟨n, rfl⟩ := hkey
    obtain ⟨hanan, hbnan, hequal⟩ := equal?_of_joinKey?_integer ha hb
    simp [hanan, hbnan, hequal]
  · obtain rfl := eq_of_joinKey?_eq ha hb fun n hn => hkey ⟨n, hn⟩
    rw [equal?_self (isNull_of_joinKey? ha)]
    cases a.isNaN <;> simp

/-- The largest integer and the number that follows it have one key, and so has what is no number
with itself. -/
theorem equal?_of_joinKey?_largest :
    ∃ a b nan : Cell, a = .integer Int64.maxValue ∧ b = .float ⟨0x43E0000000000000⟩
      ∧ nan = .float ⟨0x7FF8000000000000⟩ ∧ a.joinKey? = b.joinKey? ∧ a.joinKey?.isSome = true
      ∧ (a.equal? b = some true ∧ Comparator.eq.holds a b = true)
      ∧ nan.equal? nan = some false ∧ Comparator.eq.holds nan nan = false := by
  have hkeys : (integer Int64.maxValue).joinKey? = some (.integer (2 ^ 63 - 1))
      ∧ (float ⟨0x43E0000000000000⟩).joinKey? = some (.integer (2 ^ 63 - 1)) := by
    decide +kernel
  obtain ⟨ha, hb⟩ := hkeys
  have hnan : (float ⟨0x7FF8000000000000⟩).joinKey? = some (.float 0x7FF8000000000000) := by
    decide +kernel
  obtain ⟨-, hself⟩ := (equal?_of_joinKey? hnan hnan).2 (Or.inl (by decide))
  exact ⟨_, _, _, rfl, rfl, rfl, ha.trans hb.symm, by rw [ha]; rfl,
    (equal?_of_joinKey? ha hb).1 ⟨rfl, by decide⟩, hself⟩

end Cell

end LinkedTables
