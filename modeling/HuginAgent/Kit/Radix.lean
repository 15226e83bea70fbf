/-
Fractions that are written in two bases.

Digits after the point stand for a fraction of one.  In another base it may have to be filled up
with zeros, which changes nothing (`SameFraction`), or it is cut after some digits (`Truncates`).
Both are kept when digits of the same worth are put in front, so a recoding that works on groups
of digits is followed one group at a time.
-/
import Mathlib.Data.Nat.Digits.Defs
import Mathlib.Tactic.Linarith
import Mathlib.Tactic.Ring

namespace HuginAgent

namespace Radix

variable {b c : Nat} {front front' l l' : List Nat}

/-- The digits as a number, the first one most significant. -/
def numeral (b : Nat) (l : List Nat) : Nat := Nat.ofDigits b l.reverse

@[simp] theorem numeral_nil : numeral b [] = 0 := rfl

@[simp] theorem numeral_cons (d : Nat) (l : List Nat) :
    numeral b (d :: l) = d * b ^ l.length + numeral b l := by
  rw [numeral, Nat.ofDigits_reverse_cons, Nat.add_comm, Nat.mul_comm]
  rfl

theorem numeral_append (front l : List Nat) :
    numeral b (front ++ l) = numeral b front * b ^ l.length + numeral b l := by
  rw [numeral, List.reverse_append, Nat.ofDigits_append, List.length_reverse, Nat.add_comm,
    Nat.mul_comm]
  rfl

/-- **As many digits are told by their number.** -/
theorem numeral_injective (hb : 1 < b) (hlength : l.length = l'.length) (hl : ∀ d ∈ l, d < b)
    (hl' : ∀ d ∈ l', d < b) (h : numeral b l = numeral b l') : l = l' := by
  have hreverse : l.reverse = l'.reverse := by
    refine Nat.ofDigits_inj_of_len_eq hb ?_ ?_ ?_ h
    · rw [List.length_reverse, List.length_reverse, hlength]
    · exact fun d hd => hl d (List.mem_reverse.mp hd)
    · exact fun d hd => hl' d (List.mem_reverse.mp hd)
  exact List.reverse_inj.mp hreverse

/-! ### Two bases -/

/-- The same fraction. -/
def SameFraction (b c : Nat) (l l' : List Nat) : Prop :=
  numeral b l * c ^ l'.length = numeral c l' * b ^ l.length

/-- The digits in the second base are the first ones of the fraction. -/
structure Truncates (b c : Nat) (l l' : List Nat) : Prop where
  le : numeral c l' * b ^ l.length ≤ numeral b l * c ^ l'.length
  lt : numeral b l * c ^ l'.length < (numeral c l' + 1) * b ^ l.length

theorem SameFraction.append (hpow : b ^ front.length = c ^ front'.length)
    (hfront : numeral b front = numeral c front') (h : SameFraction b c l l') :
    SameFraction b c (front ++ l) (front' ++ l') := by
  unfold SameFraction at h ⊢
  rw [numeral_append, numeral_append, List.length_append, List.length_append, pow_add, pow_add, hpow,
    hfront]
  calc (numeral c front' * b ^ l.length + numeral b l) * (c ^ front'.length * c ^ l'.length)
      = numeral c front' * b ^ l.length * (c ^ front'.length * c ^ l'.length) +
          numeral b l * c ^ l'.length * c ^ front'.length := by ring
    _ = numeral c front' * b ^ l.length * (c ^ front'.length * c ^ l'.length) +
          numeral c l' * b ^ l.length * c ^ front'.length := by rw [h]
    _ = (numeral c front' * c ^ l'.length + numeral c l') * (c ^ front'.length * b ^ l.length) := by
          ring

/-- What both sides of the comparison have of the digits in front. -/
theorem append_mul (l l' : List Nat) (hpow : b ^ front.length = c ^ front'.length)
    (hfront : numeral b front = numeral c front') (n : Nat) :
    (numeral c front' * c ^ l'.length + n) * b ^ (front ++ l).length =
        numeral c front' * c ^ l'.length * b ^ (front ++ l).length +
          c ^ front'.length * (n * b ^ l.length) ∧
      numeral b (front ++ l) * c ^ (front' ++ l').length =
        numeral c front' * c ^ l'.length * b ^ (front ++ l).length +
          c ^ front'.length * (numeral b l * c ^ l'.length) := by
  rw [numeral_append, List.length_append, List.length_append, pow_add, pow_add, hpow, hfront]
  exact ⟨by ring, by ring⟩

theorem Truncates.append (hc : 0 < c) (hpow : b ^ front.length = c ^ front'.length)
    (hfront : numeral b front = numeral c front') (h : Truncates b c l l') :
    Truncates b c (front ++ l) (front' ++ l') := by
  have hpos : 0 < c ^ front'.length := Nat.pow_pos hc
  refine ⟨?_, ?_⟩
  · obtain ⟨hleft, hright⟩ := append_mul l l' hpow hfront (numeral c l')
    rw [numeral_append front' l', hleft, hright]
    exact Nat.add_le_add_left (Nat.mul_le_mul_left _ h.le) _
  · obtain ⟨hleft, hright⟩ := append_mul l l' hpow hfront (numeral c l' + 1)
    rw [numeral_append front' l', Nat.add_assoc, hleft, hright]
    exact Nat.add_lt_add_left (Nat.mul_lt_mul_of_pos_left h.lt hpos) _

/-- **The digits of a fraction are told by how many there are.** -/
theorem SameFraction.unique {l₁ l₂ : List Nat} (hb : 1 < b) (hc : 0 < c)
    (hlength : l₁.length = l₂.length) (hl₁ : ∀ d ∈ l₁, d < b) (hl₂ : ∀ d ∈ l₂, d < b)
    (h₁ : SameFraction b c l₁ l') (h₂ : SameFraction b c l₂ l') : l₁ = l₂ := by
  refine numeral_injective hb hlength hl₁ hl₂ ?_
  refine Nat.eq_of_mul_eq_mul_right (Nat.pow_pos hc (n := l'.length)) ?_
  rw [h₁, h₂, hlength]

theorem Truncates.numeral_eq (hb : 0 < b) (h : Truncates b c l l') :
    numeral c l' = numeral b l * c ^ l'.length / b ^ l.length := by
  have hpos : 0 < b ^ l.length := Nat.pow_pos hb
  refine (Nat.div_eq_of_lt_le ?_ ?_).symm
  · exact h.le
  · exact h.lt

end Radix

end HuginAgent
