/-
Versions, over any alphabet.

`\d+\.\d+\.\d+(?:-[0-9A-Za-z.-]+)?` as a matcher that goes from left to right.  What a digit is,
and what may be in a prerelease, are parameters; as long as a dot and a hyphen are no digits, the
greedy match is the only one.
-/
import Mathlib.Data.List.TakeWhile

namespace HuginAgent

namespace Grammar

variable {α : Type} [DecidableEq α] (digit pre : α → Bool) (dot hyphen : α)

/-- One or more of a class, and what comes after them. -/
def afterSome (p : α → Bool) (s : List α) : Option (List α) :=
  if s.takeWhile p = [] then none else some (s.dropWhile p)

/-- One character, and what comes after it. -/
def afterOne (a : α) : List α → Option (List α)
  | u :: rest => if u = a then some rest else none
  | [] => none

/-- Nothing, or a hyphen and a prerelease. -/
def isTail : List α → Bool
  | [] => true
  | u :: rest => u = hyphen && rest ≠ [] && rest.all pre

def isVersion (s : List α) : Bool :=
  (((((afterSome digit s).bind (afterOne dot)).bind (afterSome digit)).bind (afterOne dot)).bind
    (afterSome digit)).any (isTail pre hyphen)

/-- One or more digits. -/
def Digits (s : List α) : Prop := s ≠ [] ∧ ∀ u ∈ s, digit u = true

variable {digit pre dot hyphen}

omit [DecidableEq α] in
theorem afterSome_eq_some_iff {p : α → Bool} {s rest : List α} :
    afterSome p s = some rest ↔
      ∃ a, Digits p a ∧ (∀ u ∈ rest.head?, p u = false) ∧ s = a ++ rest := by
  unfold afterSome
  constructor
  · intro h
    obtain ⟨hne, h⟩ := Option.ite_none_left_eq_some.mp h
    obtain rfl := Option.some.inj h
    refine ⟨s.takeWhile p, ⟨hne, fun u hu => List.mem_takeWhile_imp hu⟩, ?_, ?_⟩
    · intro u hu
      have hcons : s.dropWhile p ≠ [] := fun hnil => by
        rw [hnil] at hu
        exact nomatch hu
      have hhead := List.head_dropWhile_not p hcons
      rw [List.head?_eq_some_head hcons] at hu
      rwa [Option.some.inj hu] at hhead
    · exact List.takeWhile_append_dropWhile.symm
  · rintro ⟨a, ⟨hne, ha⟩, hrest, rfl⟩
    have htake : (a ++ rest).takeWhile p = a := by
      rw [List.takeWhile_append_of_pos ha]
      cases rest with
      | nil => exact List.append_nil a
      | cons u rest =>
          have hu : ¬ p u = true := by
            rw [hrest u rfl]
            exact Bool.false_ne_true
          rw [List.takeWhile_cons_of_neg hu, List.append_nil]
    have hdrop : (a ++ rest).dropWhile p = rest := by
      rw [List.dropWhile_append_of_pos ha]
      cases rest with
      | nil => rfl
      | cons u rest =>
          have hu : ¬ p u = true := by
            rw [hrest u rfl]
            exact Bool.false_ne_true
          exact List.dropWhile_cons_of_neg hu
    rw [htake, if_neg hne, hdrop]

theorem afterOne_eq_some_iff {a : α} {s rest : List α} :
    afterOne a s = some rest ↔ s = a :: rest := by
  cases s with
  | nil => exact iff_of_false (fun h => nomatch h) fun h => nomatch h
  | cons u s =>
      rw [afterOne, Option.ite_none_right_eq_some, List.cons.injEq, Option.some.injEq]

/-- **A version is three numbers with dots between them, and a tail.** -/
theorem isVersion_iff (hdot : digit dot = false) (hhyphen : digit hyphen = false) {s : List α} :
    isVersion digit pre dot hyphen s = true ↔
      ∃ a b c tail, Digits digit a ∧ Digits digit b ∧ Digits digit c ∧
        isTail pre hyphen tail = true ∧ s = a ++ dot :: (b ++ dot :: (c ++ tail)) := by
  have hstop : ∀ {rest : List α}, ∀ u ∈ (dot :: rest).head?, digit u = false := by
    rintro rest u hu
    obtain rfl := Option.some.inj hu
    exact hdot
  have htail : ∀ {tail : List α}, isTail pre hyphen tail = true →
      ∀ u ∈ tail.head?, digit u = false := by
    intro tail h u hu
    cases tail with
    | nil => exact nomatch hu
    | cons v tail =>
        obtain rfl := Option.some.inj hu
        simp only [isTail, Bool.and_eq_true, decide_eq_true_eq] at h
        rw [h.1.1]
        exact hhyphen
  simp only [isVersion, Option.any_eq_true, Option.bind_eq_some_iff, afterSome_eq_some_iff,
    afterOne_eq_some_iff]
  constructor
  · rintro ⟨tail, ⟨s₄, ⟨s₃, ⟨s₂, ⟨s₁, ⟨a, ha, -, rfl⟩, rfl⟩, b, hb, -, rfl⟩, rfl⟩, c, hc, -, rfl⟩, h⟩
    exact ⟨a, b, c, tail, ha, hb, hc, h, rfl⟩
  · rintro ⟨a, b, c, tail, ha, hb, hc, h, rfl⟩
    exact ⟨tail, ⟨_, ⟨_, ⟨_, ⟨_, ⟨a, ha, hstop, rfl⟩, rfl⟩, b, hb, hstop, rfl⟩, rfl⟩, c, hc,
      htail h, rfl⟩, h⟩

/-- A version in another alphabet. -/
theorem isVersion_map {β : Type} [DecidableEq β] (digit' pre' : β → Bool) (f : α → β)
    (hdot : digit dot = false) (hhyphen : digit hyphen = false) (hdot' : digit' (f dot) = false)
    (hhyphen' : digit' (f hyphen) = false) {s : List α}
    (hdigit : ∀ u ∈ s, digit u = true → digit' (f u) = true)
    (hpre : ∀ u ∈ s, pre u = true → pre' (f u) = true) (h : isVersion digit pre dot hyphen s = true) :
    isVersion digit' pre' (f dot) (f hyphen) (s.map f) = true := by
  obtain ⟨a, b, c, tail, ha, hb, hc, htail, rfl⟩ := (isVersion_iff hdot hhyphen).mp h
  simp only [List.forall_mem_append, List.forall_mem_cons] at hdigit hpre
  have hdigits : ∀ {s : List α}, Digits digit s → (∀ u ∈ s, digit u = true → digit' (f u) = true) →
      Digits digit' (s.map f) := by
    intro s hs hclass
    exact ⟨mt List.map_eq_nil_iff.mp hs.1, List.forall_mem_map.mpr fun u hu => hclass u hu (hs.2 u hu)⟩
  refine (isVersion_iff hdot' hhyphen').mpr ⟨a.map f, b.map f, c.map f, tail.map f,
    hdigits ha hdigit.1, hdigits hb hdigit.2.2.1, hdigits hc hdigit.2.2.2.2.1, ?_, ?_⟩
  · cases tail with
    | nil => rfl
    | cons u tail =>
        simp only [isTail, Bool.and_eq_true, decide_eq_true_eq, List.all_eq_true] at htail
        obtain ⟨⟨hu, hne⟩, hall⟩ := htail
        simp only [List.map_cons, isTail, Bool.and_eq_true, decide_eq_true_eq, List.all_eq_true]
        refine ⟨⟨congrArg f hu, mt List.map_eq_nil_iff.mp hne⟩, ?_⟩
        exact List.forall_mem_map.mpr fun v hv =>
          hpre.2.2.2.2.2 v (List.mem_cons_of_mem _ hv) (hall v hv)
  · simp only [List.map_append, List.map_cons]

end Grammar

end HuginAgent
