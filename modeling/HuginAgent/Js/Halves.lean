/-
Cutting a text in two.

A place in a text stands inside a pair when a high surrogate is before it and a low one after.
A text without a lone surrogate has none in its parts either, unless it is cut inside a pair,
and then both parts have one.  White space and the signs of JSON are no surrogates, so what is
put between texts or taken off their ends makes no difference.
-/
import HuginAgent.Js.Cursor
import HuginAgent.Js.Strings

namespace HuginAgent

variable {s t : JsString} {u : UInt16}

/-- Is a high surrogate at the end, of a text after one or not? -/
def endsHigh (prevHigh : Bool) (s : JsString) : Bool := (s.getLast?.map isHighSurrogate).getD prevHigh

def startsLow (s : JsString) : Bool := s.head?.any isLowSurrogate

/-- Does the place stand inside a pair? -/
def splitsPair (s : JsString) (n : Nat) : Bool := endsHigh false (s.take n) && startsLow (s.drop n)

@[simp] theorem endsHigh_nil (p : Bool) : endsHigh p [] = p := rfl

@[simp] theorem endsHigh_cons (p : Bool) (u : UInt16) (s : JsString) :
    endsHigh p (u :: s) = endsHigh (isHighSurrogate u) s := by
  cases s with
  | nil => rfl
  | cons v s => rw [endsHigh, endsHigh, List.getLast?_cons_cons, List.getLast?_cons]; rfl

@[simp] theorem startsLow_nil : startsLow [] = false := rfl

@[simp] theorem startsLow_cons (u : UInt16) (s : JsString) :
    startsLow (u :: s) = isLowSurrogate u := rfl

/-! ### Lone surrogates of the parts -/

theorem isLone_eq (p : Bool) (u : UInt16) (rest : JsString) :
    isLone p u rest = (isHighSurrogate u && !startsLow rest || isLowSurrogate u && !p) := rfl

/-- What is before only matters to a low surrogate. -/
theorem loneFrom_prev (hs : startsLow s = false) (p q : Bool) : loneFrom p s = loneFrom q s := by
  cases s with
  | nil => rfl
  | cons u s =>
      rw [startsLow_cons] at hs
      rw [loneFrom, loneFrom, isLone_eq, isLone_eq, hs]
      rfl

/-- A text that does not begin with a low surrogate leaves what is before it as it is. -/
theorem loneFrom_append (ht : startsLow t = false) (p : Bool) (s : JsString) :
    loneFrom p (s ++ t) = (loneFrom p s || hasLoneSurrogate t) := by
  induction s generalizing p with
  | nil => exact loneFrom_prev ht p false
  | cons u s ih =>
      have hnext : startsLow (s ++ t) = startsLow s := by
        cases s with
        | nil => exact ht
        | cons v s => rfl
      rw [List.cons_append, loneFrom, loneFrom, ih, isLone_eq, isLone_eq, hnext, Bool.or_assoc,
        Bool.or_assoc, Bool.or_assoc]

theorem hasLone_append (ht : startsLow t = false) (s : JsString) :
    hasLoneSurrogate (s ++ t) = (hasLoneSurrogate s || hasLoneSurrogate t) :=
  loneFrom_append ht false s

/-- The first part of a sound text is sound unless the cut is inside a pair. -/
theorem loneFrom_before {p : Bool} (h : loneFrom p (s ++ t) = false) :
    loneFrom p s = (endsHigh false s && startsLow t) := by
  induction s generalizing p with
  | nil => rfl
  | cons u s ih =>
      rw [List.cons_append, loneFrom, Bool.or_eq_false_iff] at h
      have hrest := ih h.2
      rw [loneFrom, hrest, endsHigh_cons]
      cases s with
      | nil =>
          have hlone := h.1
          rw [isLone_eq, Bool.or_eq_false_iff, List.nil_append] at hlone
          rw [isLone_eq, hlone.2]
          cases hu : isHighSurrogate u with
          | false => rfl
          | true =>
              have hlow : startsLow t = true := by simpa [hu] using hlone.1
              simp [hlow]
      | cons v s =>
          have hlone : isLone p u (v :: s) = false := h.1
          rw [hlone, endsHigh_cons, endsHigh_cons, Bool.false_or]

/-- So is the rest. -/
theorem loneFrom_after {p : Bool} (h : loneFrom p (s ++ t) = false) :
    loneFrom (endsHigh p s) t = false := by
  induction s generalizing p with
  | nil => exact h
  | cons u s ih =>
      rw [List.cons_append, loneFrom, Bool.or_eq_false_iff] at h
      rw [endsHigh_cons]
      exact ih h.2

theorem hasLone_after (h : hasLoneSurrogate (s ++ t) = false) :
    hasLoneSurrogate t = (endsHigh false s && startsLow t) := by
  have hrest := loneFrom_after h
  cases hends : endsHigh false s with
  | false =>
      rw [hends] at hrest
      exact hrest
  | true =>
      rw [hends] at hrest
      rw [Bool.true_and]
      cases t with
      | nil => rfl
      | cons u t =>
          rw [loneFrom, Bool.or_eq_false_iff, isLone_eq] at hrest
          rw [startsLow_cons, hasLoneSurrogate, loneFrom, isLone_eq, hrest.2]
          obtain ⟨hlone, -⟩ := hrest
          cases hlow : isLowSurrogate u with
          | false => simpa [hlow] using hlone
          | true => simp

/-- **A prefix of a sound text is sound unless it ends inside a pair.** -/
theorem hasLone_take (h : hasLoneSurrogate s = false) (n : Nat) :
    hasLoneSurrogate (s.take n) = splitsPair s n := by
  rw [← List.take_append_drop n s] at h
  exact loneFrom_before h

/-- **A suffix of a sound text is sound unless it begins inside a pair.** -/
theorem hasLone_drop (h : hasLoneSurrogate s = false) (n : Nat) :
    hasLoneSurrogate (s.drop n) = splitsPair s n := by
  rw [← List.take_append_drop n s] at h
  exact hasLone_after h

theorem splitsPair_zero (s : JsString) : splitsPair s 0 = false := rfl

/-! ### White space -/

/-- White space is no surrogate. -/
theorem isWhite_surrogate (h : isWhite u = true) :
    isHighSurrogate u = false ∧ isLowSurrogate u = false := by
  have h13 : (13 : UInt16).toNat = 13 := rfl
  have h200A : (0x200A : UInt16).toNat = 0x200A := rfl
  simp only [isWhite, Bool.or_eq_true, Bool.and_eq_true, decide_eq_true_eq,
    UInt16.le_iff_toNat_le] at h
  rw [← Bool.not_eq_true, ← Bool.not_eq_true, isHighSurrogate_iff, isLowSurrogate_iff]
  rcases h with (((((((((h | rfl) | rfl) | rfl) | h) | rfl) | rfl) | rfl) | rfl) | rfl) | rfl
  · omega
  · decide
  · decide
  · decide
  · omega
  all_goals decide

theorem isLone_white (h : isWhite u = true) (p : Bool) (rest : JsString) : isLone p u rest = false := by
  obtain ⟨hhigh, hlow⟩ := isWhite_surrogate h
  rw [isLone_eq, hhigh, hlow]
  rfl

/-- White space at the end. -/
theorem loneFrom_white (h : ∀ u ∈ t, isWhite u = true) (p : Bool) : loneFrom p t = false := by
  induction t generalizing p with
  | nil => rfl
  | cons u t ih =>
      obtain ⟨hu, ht⟩ := List.forall_mem_cons.mp h
      rw [loneFrom, isLone_white hu, ih ht, Bool.or_false]

theorem startsLow_white (h : ∀ u ∈ t, isWhite u = true) : startsLow t = false := by
  cases t with
  | nil => rfl
  | cons u t => exact (isWhite_surrogate (h u List.mem_cons_self)).2

theorem hasLone_dropWhile (s : JsString) :
    hasLoneSurrogate (s.dropWhile isWhite) = hasLoneSurrogate s := by
  induction s with
  | nil => rfl
  | cons u s ih =>
      by_cases hu : isWhite u = true
      · rw [List.dropWhile_cons_of_pos hu, ih, hasLoneSurrogate, hasLoneSurrogate, loneFrom,
          isLone_white hu, (isWhite_surrogate hu).1, Bool.false_or]
      · rw [List.dropWhile_cons_of_neg hu]

theorem hasLone_rdropWhile (s : JsString) :
    hasLoneSurrogate (s.rdropWhile isWhite) = hasLoneSurrogate s := by
  have hwhite : ∀ u ∈ s.rtakeWhile isWhite, isWhite u = true := fun u hu =>
    List.mem_rtakeWhile_imp hu
  have hsplit := hasLone_append (startsLow_white hwhite) (s.rdropWhile isWhite)
  rw [List.rdropWhile_append_rtakeWhile] at hsplit
  rw [hsplit, hasLoneSurrogate, hasLoneSurrogate, loneFrom_white hwhite, Bool.or_false]

theorem hasLone_trim (s : JsString) : hasLoneSurrogate (trim s) = hasLoneSurrogate s := by
  rw [trim, hasLone_rdropWhile, hasLone_dropWhile]

end HuginAgent
