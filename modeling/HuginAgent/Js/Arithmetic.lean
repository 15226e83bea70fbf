/-
Arithmetic on numbers.

An operation on doubles is the exact operation followed by one rounding.  The exact sum and
product of two decimals are decimals again (`Decimal.value_add`, `Decimal.value_mul`); the rounding
is a parameter, the number that a decimal is read as.
-/
import HuginAgent.Js.Order

namespace HuginAgent

namespace Decimal

/-- The exact sum: both are written with the smaller of the two exponents. -/
def add (a b : Decimal) : Decimal :=
  let e := min a.exponent b.exponent
  let sum := signed a.neg a.digits * 10 ^ (a.exponent - e).toNat +
    signed b.neg b.digits * 10 ^ (b.exponent - e).toNat
  of (decide (sum < 0)) sum.natAbs e

/-- The exact product. -/
def mul (a b : Decimal) : Decimal :=
  of (a.neg != b.neg) (a.digits * b.digits) (a.exponent + b.exponent)

theorem value_of (neg : Bool) (n : Nat) (e : Int) :
    (of neg n e).value = signed neg n * (10 : ℚ) ^ e := by
  by_cases hn : n = 0
  · subst hn
    rw [signed_eq_zero.mpr rfl]
    simp [of, value, zero, signed]
  · obtain ⟨k, hexponent, hvalue⟩ := stripZeros_value n n e
    rw [of, dif_neg hn, value]
    simp only
    have hpow : ((10 : ℤ) ^ k : ℚ) * (10 : ℚ) ^ e = (10 : ℚ) ^ (stripZeros n n e).2 := by
      rw [hexponent, zpow_add₀ (by norm_num), zpow_natCast, mul_comm]
      norm_num
    have hsigned : signed neg n = signed neg (stripZeros n n e).1 * 10 ^ k := by
      rw [← signed_mul_pow, ← hvalue]
    rw [hsigned, ← hpow]
    push_cast
    ring

theorem value_scaled (a : Decimal) {e : Int} (h : e ≤ a.exponent) :
    ((signed a.neg a.digits * 10 ^ (a.exponent - e).toNat : ℤ) : ℚ) * (10 : ℚ) ^ e = a.value := by
  obtain ⟨k, hk⟩ := Int.le.dest h
  have hnat : (a.exponent - e).toNat = k := by omega
  rw [hnat, value, ← hk, zpow_add₀ (by norm_num), zpow_natCast]
  push_cast
  ring

theorem signed_natAbs (i : Int) : signed (decide (i < 0)) i.natAbs = i := by
  unfold signed
  split
  · rename_i h
    have := of_decide_eq_true h
    omega
  · rename_i h
    have : ¬ i < 0 := fun hlt => h (decide_eq_true hlt)
    omega

theorem value_add (a b : Decimal) : (a.add b).value = a.value + b.value := by
  rw [add, value_of, signed_natAbs, Int.cast_add, add_mul,
    value_scaled a (Int.min_le_left _ _), value_scaled b (Int.min_le_right _ _)]

theorem signed_mul (neg neg' : Bool) (n n' : Nat) :
    signed (neg != neg') (n * n') = signed neg n * signed neg' n' := by
  unfold signed
  cases neg <;> cases neg' <;> simp

theorem value_mul (a b : Decimal) : (a.mul b).value = a.value * b.value := by
  rw [mul, value_of, signed_mul, zpow_add₀ (by norm_num), value, value]
  push_cast
  ring

end Decimal

namespace JsNumber

/-- `a < b`. -/
def lt : JsNumber → JsNumber → Bool
  | .nan, _ | _, .nan => false
  | .finite a, .finite b => a < b
  | .infinity neg, .finite _ => neg
  | .finite _, .infinity neg => !neg
  | .infinity a, .infinity b => a && !b

variable (number : Decimal → JsNumber)

/-- `a + b`. -/
def add : JsNumber → JsNumber → JsNumber
  | .nan, _ | _, .nan => .nan
  | .finite a, .finite b => number (a.add b)
  | .infinity a, .infinity b => if a = b then .infinity a else .nan
  | .infinity a, .finite _ | .finite _, .infinity a => .infinity a

/-- `a * b`. -/
def mul : JsNumber → JsNumber → JsNumber
  | .nan, _ | _, .nan => .nan
  | .finite a, .finite b => number (a.mul b)
  | .infinity a, .infinity b => .infinity (a != b)
  | .infinity a, .finite b | .finite b, .infinity a =>
      if b.digits = 0 then .nan else .infinity (a != b.neg)

end JsNumber

end HuginAgent
