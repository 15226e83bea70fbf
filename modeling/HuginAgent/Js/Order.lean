/-
Numbers in order.

A finite number is the rational that its decimal stands for, and a decimal without trailing
zeros stands for one number only, so the numbers are ordered as the rationals are.
-/
import HuginAgent.Js.Date
import Mathlib.Algebra.Order.Field.Basic
import Mathlib.Data.Rat.Defs
import Mathlib.Order.Lattice

namespace HuginAgent

namespace Decimal

/-- The number that the decimal stands for. -/
def value (d : Decimal) : ℚ := signed d.neg d.digits * (10 : ℚ) ^ d.exponent

theorem signed_eq_zero {neg : Bool} {n : Nat} : signed neg n = 0 ↔ n = 0 := by
  unfold signed
  split <;> omega

theorem signed_mul_pow (neg : Bool) (n k : Nat) :
    signed neg (n * 10 ^ k) = signed neg n * 10 ^ k := by
  unfold signed
  split
  · push_cast
    ring
  · push_cast
    rfl

theorem signed_injective {neg neg' : Bool} {n n' : Nat} (hn : n ≠ 0)
    (h : signed neg n = signed neg' n') : neg = neg' ∧ n = n' := by
  unfold signed at h
  cases neg <;> cases neg' <;> simp only [Bool.false_eq_true, if_false, if_true] at h <;>
    first | exact ⟨rfl, by omega⟩ | omega

/-- Of two decimals for a number, the one with the smaller exponent has trailing zeros. -/
theorem eq_of_value_eq {a b : Decimal} (hle : a.exponent ≤ b.exponent) (h : a.value = b.value) :
    a = b := by
  obtain ⟨k, hk⟩ := Int.le.dest hle
  have hscaled : signed a.neg a.digits = signed b.neg (b.digits * 10 ^ k) := by
    have hpow : (10 : ℚ) ^ a.exponent ≠ 0 := zpow_ne_zero _ (by norm_num)
    rw [value, value, ← hk, zpow_add₀ (by norm_num), zpow_natCast, mul_comm ((10 : ℚ) ^ a.exponent),
      ← mul_assoc] at h
    have hcancel := mul_right_cancel₀ hpow h
    rw [signed_mul_pow]
    exact_mod_cast hcancel
  by_cases ha : a.digits = 0
  · have hb : b.digits = 0 := by
      rw [ha, signed_eq_zero.mpr rfl] at hscaled
      have hzero := signed_eq_zero.mp hscaled.symm
      exact (Nat.mul_eq_zero.mp hzero).resolve_right (by positivity)
    rw [eq_zero ha, eq_zero hb]
  · obtain ⟨hneg, hdigits⟩ := signed_injective ha hscaled
    have hzero : k = 0 := by
      rcases a.canonical with hcanonical | hcanonical
      · exact absurd hcanonical.1 ha
      · by_contra hk'
        obtain ⟨j, rfl⟩ := Nat.exists_eq_succ_of_ne_zero hk'
        refine hcanonical ?_
        rw [hdigits, Nat.pow_succ, ← Nat.mul_assoc]
        exact Nat.mul_mod_left _ _
    rw [hzero, Nat.pow_zero, Nat.mul_one] at hdigits
    refine Decimal.ext hneg hdigits ?_
    rw [hzero] at hk
    omega

/-- **A decimal is determined by its value.** -/
theorem value_injective : Function.Injective value := by
  intro a b h
  rcases Int.le_total a.exponent b.exponent with hle | hle
  · exact eq_of_value_eq hle h
  · exact (eq_of_value_eq hle h.symm).symm

instance : LinearOrder Decimal := LinearOrder.lift' value value_injective

example : ofInt 9 < ofInt 10 ∧ ¬ (ofInt 10 < ofInt 9) := by decide +kernel

end Decimal

/-! ### Dates -/

/-- `new Date(d)`, where it is not invalid. -/
def timeClip (d : Decimal) : Option TimeValue :=
  if h : -8640000000000000 ≤ d.trunc ∧ d.trunc ≤ 8640000000000000 then some ⟨d.trunc, h.1, h.2⟩
  else none

end HuginAgent
