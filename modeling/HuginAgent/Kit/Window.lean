/-
A credit window, as the sending side of a stream keeps it.

The sender may be ahead of what has been acknowledged by less than a cap; when it is at
the cap it is stopped, and when it falls below it is let go on.  A window holds both
counts and how often the sender has been switched, and carries with it that the sender
is stopped just when the counts say so.  So the switches alternate by construction: a
number of them is all there is to know.
-/
import Mathlib.Data.Nat.Basic

namespace HuginAgent

/-! ### Two things in turn -/

/-- The first `n` of `a, b, a, b, …`. -/
def alternation {β : Type} (a b : β) : Nat → List β
  | 0 => []
  | n + 1 => alternation a b n ++ [if n % 2 = 0 then a else b]

theorem getLast_alternation {β : Type} {a b : β} (hab : a ≠ b) (n : Nat) :
    (alternation a b n).getLast? = some a ↔ n % 2 = 1 := by
  cases n with
  | zero => simp [alternation]
  | succ n =>
      rw [alternation, List.getLast?_concat, Option.some.injEq]
      split
      · exact iff_of_true rfl (by omega)
      · exact iff_of_false hab.symm (by omega)

/-! ### The window -/

structure Window (cap : Nat) where
  sent : Nat
  acked : Nat
  /-- How often the sender has been stopped or let go on. -/
  switches : Nat
  acked_le : acked ≤ sent
  stopped_iff : switches % 2 = 1 ↔ acked + cap ≤ sent

namespace Window

variable {cap : Nat}

def stopped (w : Window cap) : Bool := w.switches % 2 = 1

theorem stopped_eq (w : Window cap) : w.stopped = decide (w.acked + cap ≤ w.sent) := by
  rw [stopped]
  exact decide_eq_decide.mpr w.stopped_iff

def start (hcap : 0 < cap) : Window cap where
  sent := 0
  acked := 0
  switches := 0
  acked_le := Nat.le_refl 0
  stopped_iff := by omega

/-- Move an end of the window, and switch the sender if that is called for. -/
def move (w : Window cap) (sent acked : Nat) (h : acked ≤ sent) : Window cap where
  sent
  acked
  switches := if w.switches % 2 = 1 ↔ acked + cap ≤ sent then w.switches else w.switches + 1
  acked_le := h
  stopped_iff := by
    split
    · assumption
    · omega

/-- One more is sent. -/
def emit (w : Window cap) : Window cap :=
  w.move (w.sent + 1) w.acked (Nat.le_succ_of_le w.acked_le)

/-- An acknowledgement, of whatever the other side says. -/
def ack (w : Window cap) (n : Nat) : Window cap :=
  w.move w.sent (max w.acked (min n w.sent))
    (Nat.max_le.mpr ⟨w.acked_le, Nat.min_le_right n w.sent⟩)

theorem acked_le_ack (w : Window cap) (n : Nat) : w.acked ≤ (w.ack n).acked :=
  Nat.le_max_left ..

/-- The sender is stopped when it comes to the cap, and at no other event. -/
theorem switches_emit (w : Window cap) :
    w.emit.switches =
      if !w.stopped && decide (w.acked + cap ≤ w.sent + 1) then w.switches + 1
      else w.switches := by
  have hstopped := w.stopped_iff
  simp only [emit, move, stopped, Bool.and_eq_true, Bool.not_eq_true', decide_eq_true_eq,
    decide_eq_false_iff_not]
  split
  · rw [if_neg (by omega)]
  · rw [if_pos (by omega)]

/-- The sender is let go on when it falls below the cap. -/
theorem switches_ack (w : Window cap) (n : Nat) :
    (w.ack n).switches =
      if w.stopped && !decide (max w.acked (min n w.sent) + cap ≤ w.sent) then w.switches + 1
      else w.switches := by
  have hstopped := w.stopped_iff
  simp only [ack, move, stopped, Bool.and_eq_true, Bool.not_eq_true', decide_eq_true_eq,
    decide_eq_false_iff_not]
  split
  · rw [if_neg (by omega)]
  · rw [if_pos (by omega)]

/-! ### How far ahead the sender gets -/

/-- No more than the cap is unacknowledged. -/
def Within (w : Window cap) : Prop := w.sent ≤ w.acked + cap

/-- **A sender that keeps quiet while it is stopped never gets further ahead than the cap.** -/
theorem within_emit {w : Window cap} (h : w.stopped = false) : w.emit.Within := by
  rw [stopped_eq, decide_eq_false_iff_not] at h
  show w.sent + 1 ≤ w.acked + cap
  omega

end Window

end HuginAgent
