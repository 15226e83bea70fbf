/-
Timers that fire once.

Setting a timer gives a number by which it can be cleared.  A program that keeps one number for
timers that it sets again and again loses those before the last: they can no longer be cleared.
-/
import Mathlib.Data.List.Basic

namespace HuginAgent

/-- The timers that have been set and have neither fired nor been cleared, and the next number. -/
structure Timers (κ : Type) where
  armed : List (Nat × κ)
  next : Nat

namespace Timers

variable {κ : Type}

def empty : Timers κ := ⟨[], 0⟩

/-- `setTimeout`; the number is `next`. -/
def set (t : Timers κ) (k : κ) : Timers κ := ⟨t.armed ++ [(t.next, k)], t.next + 1⟩

/-- `if (stored) clearTimeout(stored)`. -/
def clear (t : Timers κ) (stored : Option Nat) : Timers κ :=
  { t with armed := t.armed.filter fun p => stored ≠ some p.1 }

/-- What a timer that fires stands for. -/
def find (t : Timers κ) (n : Nat) : Option κ :=
  (t.armed.find? fun p => p.1 = n).map Prod.snd

/-- A timer is armed that is none of those that are stored. -/
def Lost (t : Timers κ) (stored : List (Option Nat)) : Prop :=
  ∃ p ∈ t.armed, some p.1 ∉ stored

instance (t : Timers κ) (stored : List (Option Nat)) : Decidable (t.Lost stored) :=
  inferInstanceAs (Decidable (∃ p ∈ t.armed, some p.1 ∉ stored))

/-- **When all that are stored are cleared, none is left just when none was lost.** -/
theorem clear_all_iff (t : Timers κ) (stored : List (Option Nat)) :
    (stored.foldl clear t).armed = [] ↔ ¬ t.Lost stored := by
  have hmem : ∀ p, p ∈ (stored.foldl clear t).armed ↔ p ∈ t.armed ∧ some p.1 ∉ stored := by
    induction stored generalizing t with
    | nil => exact fun p => (and_iff_left List.not_mem_nil).symm
    | cons n rest ih =>
        intro p
        rw [List.foldl_cons, ih, clear, List.mem_filter, decide_eq_true_eq, List.mem_cons, not_or,
          and_assoc]
        exact and_congr_right fun _ => and_congr_left fun _ => ne_comm
  rw [List.eq_nil_iff_forall_not_mem]
  unfold Lost
  constructor
  · rintro h ⟨p, hp, hlost⟩
    exact h p ((hmem p).mpr ⟨hp, hlost⟩)
  · intro h p hp
    exact h ⟨p, (hmem p).mp hp⟩

/-- Nothing fires where nothing is armed. -/
theorem find_of_armed_nil {t : Timers κ} (h : t.armed = []) (n : Nat) : t.find n = none := by
  rw [find, h]
  rfl

end Timers

end HuginAgent
