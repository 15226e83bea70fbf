/-
Pages of a list that changes while it is read, from its end to its beginning.

A reader holds a boundary and is given the block that ends there; where the block starts is
its next boundary.  A pager says where blocks start, and all that is asked of it is that it
gets on.  The list may grow between two questions, and its elements may change in what the
view `f` does not show: as long as it shows what it showed at the beginning, the blocks, last
to first, show just that.
-/
import Mathlib.Data.List.Basic

namespace HuginAgent

structure Pager (α : Type) where
  start : List α → Nat → Nat
  start_zero : ∀ l, start l 0 = 0
  start_lt : ∀ l b, 0 < b → b ≤ l.length → start l b < b

namespace Pager

variable {α β : Type} (p : Pager α)

/-- The block that ends at `b`. -/
def page (l : List α) (b : Nat) : List α := (l.take b).drop (p.start l b)

theorem start_le {l : List α} {b : Nat} (hb : b ≤ l.length) : p.start l b ≤ b := by
  rcases Nat.eq_zero_or_pos b with rfl | hpos
  · exact Nat.le_of_eq (p.start_zero l)
  · exact Nat.le_of_lt (p.start_lt l b hpos hb)

/-- A block goes on where what is before it stops. -/
theorem take_start_append_page {l : List α} {b : Nat} (hb : b ≤ l.length) :
    l.take (p.start l b) ++ p.page l b = l.take b := by
  have htake : l.take (p.start l b) = (l.take b).take (p.start l b) := by
    rw [List.take_take, Nat.min_eq_left (p.start_le hb)]
  rw [page, htake, List.take_append_drop]

/-! ### Walks -/

/-- The blocks a reader is given from a boundary on, when the list is `feed k` at its `k`th
question. -/
inductive Walk (feed : Nat → List α) : Nat → Nat → List (List α) → Prop
  | last {k b : Nat} (h : p.start (feed k) b = 0) : Walk feed k b [p.page (feed k) b]
  | next {k b : Nat} {pages : List (List α)} (h : 0 < p.start (feed k) b)
      (rest : Walk feed (k + 1) (p.start (feed k) b) pages) :
      Walk feed k b (p.page (feed k) b :: pages)

/-- Whenever it is looked at, the list shows what `l` shows, and then maybe more. -/
def Extends (f : α → β) (l : List α) (feed : Nat → List α) : Prop :=
  ∀ k, l.map f <+: (feed k).map f

variable {f : α → β} {l : List α} {feed : Nat → List α}

theorem Extends.length_le (h : Extends f l feed) (k : Nat) : l.length ≤ (feed k).length := by
  have hle := (h k).length_le
  rwa [List.length_map, List.length_map] at hle

theorem Extends.take (h : Extends f l feed) (k : Nat) {b : Nat} (hb : b ≤ l.length) :
    ((feed k).take b).map f = (l.take b).map f := by
  obtain ⟨s, hs⟩ := h k
  rw [List.map_take, List.map_take, ← hs,
    List.take_append_of_le_length (by rwa [List.length_map])]

/-- **The blocks of a walk, last to first, show what was before the boundary.** -/
theorem Walk.flatten (hext : Extends f l feed) {k b : Nat} {pages : List (List α)}
    (hwalk : p.Walk feed k b pages) (hb : b ≤ l.length) :
    pages.reverse.flatten.map f = (l.take b).map f := by
  induction hwalk with
  | last h =>
      rw [List.reverse_singleton, List.flatten_singleton, page, h, List.drop_zero, hext.take _ hb]
  | @next k b pages h _ ih =>
      have hfeed := Nat.le_trans hb (hext.length_le k)
      have hstart := Nat.le_trans (p.start_le hfeed) hb
      rw [List.reverse_cons, List.flatten_append, List.flatten_singleton, List.map_append,
        ih hstart, ← hext.take k hstart, ← List.map_append, p.take_start_append_page hfeed,
        hext.take k hb]

end Pager

end HuginAgent
