/-
Paging by the key of the last element.

A list is kept in the order of a sort.  A reader takes the first `n`, and then the first `n` of
what a second order puts after the last element it has.  The two orders may differ.

  * Where each element of the list is before all later ones in the second order, the pages are
    the list (`pages_flatten`).
  * Pages of one element are a chain in the second order whatever the list is
    (`isChain_pages_one`), so where they are the list, its elements are in that order.
  * The second order agrees with a stable sort just when it does on each pair of the list that
    was sorted (`pairwise_insertionSort_iff`).
-/
import Mathlib.Data.List.Chain
import Mathlib.Data.List.Sort
import Mathlib.Data.List.TakeWhile

namespace HuginAgent

namespace Keyset

variable {α κ : Type} (key : α → κ) (before : κ → κ → Bool)

/-- What is left after a key, or everything. -/
def rest (l : List α) : Option κ → List α
  | none => l
  | some k => l.filter fun a => before k (key a)

/-- The pages of `n` elements from a key on. -/
def pages (l : List α) (n : Nat) : (fuel : Nat) → Option κ → Option (List (List α))
  | 0, _ => none
  | fuel + 1, k =>
      let page := (rest key before l k).take n
      if n < (rest key before l k).length then
        (pages l n fuel (page.getLast?.map key)).map (page :: ·)
      else some [page]

variable {key before}

theorem mem_of_mem_rest {l : List α} {k : Option κ} {a : α} (h : a ∈ rest key before l k) :
    a ∈ l := by
  cases k with
  | none => exact h
  | some k => exact (List.mem_filter.mp h).1

theorem mem_of_mem_pages {l : List α} {n fuel : Nat} {k : Option κ} {ps : List (List α)}
    (h : pages key before l n fuel k = some ps) : ∀ a ∈ ps.flatten, a ∈ l := by
  induction fuel generalizing k ps with
  | zero => exact nomatch h
  | succ fuel ih =>
      have hpage : ∀ a ∈ (rest key before l k).take n, a ∈ l :=
        fun a ha => mem_of_mem_rest (List.mem_of_mem_take ha)
      rw [pages] at h
      split at h
      · obtain ⟨ps', hps', rfl⟩ := Option.map_eq_some_iff.mp h
        exact List.forall_mem_append.mpr ⟨hpage, ih hps'⟩
      · obtain rfl := Option.some.inj h
        rw [List.flatten_singleton]
        exact hpage

/-- What tells `f` apart tells `g` apart, in lists too. -/
theorem map_eq_of_map_eq {β γ : Type} {f : α → β} {g : α → γ} {l l' : List α}
    (h : ∀ a ∈ l, ∀ b ∈ l', f a = f b → g a = g b) (hmap : l.map f = l'.map f) :
    l.map g = l'.map g := by
  induction l generalizing l' with
  | nil =>
      rw [List.map_eq_nil_iff.mp hmap.symm]
  | cons a l ih =>
      cases l' with
      | nil => exact nomatch hmap
      | cons b l' =>
          obtain ⟨hab, hrest⟩ := List.cons.inj hmap
          rw [List.map_cons, List.map_cons, h a List.mem_cons_self b List.mem_cons_self hab,
            ih (fun c hc d hd => h c (List.mem_cons_of_mem _ hc) d (List.mem_cons_of_mem _ hd)) hrest]

/-- What is left after the last of the first elements of a list in order. -/
theorem rest_append (hasymm : ∀ j k, before j k = true → before k j = false)
    {done left : List α} (h : (done ++ left).Pairwise fun a b => before (key a) (key b) = true) :
    rest key before (done ++ left) (done.getLast?.map key) = left := by
  rcases List.eq_nil_or_concat done with rfl | ⟨init, last, rfl⟩
  · rfl
  · rw [List.concat_eq_append] at h ⊢
    rw [List.getLast?_concat, Option.map_some, rest]
    have hself : before (key last) (key last) = false := by
      cases hcase : before (key last) (key last) with
      | false => rfl
      | true => exact absurd (hasymm _ _ hcase) (by rw [hcase]; exact Bool.noConfusion)
    obtain ⟨hinit, -, hleft⟩ := List.pairwise_append.mp h
    obtain ⟨-, -, hlast⟩ := List.pairwise_append.mp hinit
    rw [List.filter_append, List.filter_append, List.filter_eq_nil_iff.mpr, List.filter_eq_nil_iff.mpr,
      List.filter_eq_self.mpr]
    · rfl
    · exact fun a ha => hleft last (List.mem_append_right _ List.mem_cons_self) a ha
    · intro a ha
      rw [List.mem_singleton.mp ha, hself]
      exact Bool.false_ne_true
    · intro a ha
      rw [hasymm _ _ (hlast a ha last List.mem_cons_self)]
      exact Bool.false_ne_true

/-- **The pages of a list in order are the list.** -/
theorem pages_flatten (hasymm : ∀ j k, before j k = true → before k j = false) {n : Nat}
    (hn : 0 < n) {l : List α} (h : l.Pairwise fun a b => before (key a) (key b) = true)
    {done left : List α} (hl : l = done ++ left) {fuel : Nat} (hfuel : left.length < fuel) :
    ∃ ps, pages key before l n fuel (done.getLast?.map key) = some ps ∧ ps.flatten = left := by
  induction fuel generalizing done left with
  | zero => exact absurd hfuel (Nat.not_lt_zero _)
  | succ fuel ih =>
      have hrest : rest key before l (done.getLast?.map key) = left := by
        subst hl
        exact rest_append hasymm h
      rw [pages, hrest]
      split
      · rename_i hmore
        have hpage : left.take n ≠ [] := by
          intro hnil
          rcases List.take_eq_nil_iff.mp hnil with hzero | hleft
          · omega
          · rw [hleft] at hmore
            exact absurd hmore (Nat.not_lt_zero _)
        have hlast : (done ++ left.take n).getLast? = (left.take n).getLast? := by
          rw [List.getLast?_append]
          exact Option.or_of_isSome (List.getLast?_isSome.mpr hpage)
        obtain ⟨ps, hps, hflatten⟩ := @ih (done ++ left.take n) (left.drop n)
          (by rw [hl, List.append_assoc, List.take_append_drop]) (by rw [List.length_drop]; omega)
        rw [hlast] at hps
        refine ⟨_, by rw [hps]; rfl, ?_⟩
        rw [List.flatten_cons, hflatten, List.take_append_drop]
      · rename_i hfew
        refine ⟨_, rfl, ?_⟩
        rw [List.flatten_singleton, List.take_of_length_le (Nat.not_lt.mp hfew)]

/-- **Pages of one element are a chain, whatever the list is.** -/
theorem isChain_pages_one {l : List α} {fuel : Nat} {k : Option κ} {ps : List (List α)}
    (h : pages key before l 1 fuel k = some ps) :
    (k.toList ++ ps.flatten.map key).IsChain fun j k => before j k = true := by
  induction fuel generalizing k ps with
  | zero => exact nomatch h
  | succ fuel ih =>
      rw [pages] at h
      cases hrest : rest key before l k with
      | nil =>
          rw [hrest] at h
          obtain rfl := Option.some.inj h
          cases k with
          | none => exact .nil
          | some k => exact .singleton k
      | cons a more =>
          have hfirst : ∀ j ∈ k, before j (key a) = true := by
            intro j hj
            have hmem : a ∈ rest key before l k := hrest ▸ List.mem_cons_self
            rw [hj] at hmem
            exact (List.mem_filter.mp hmem).2
          have hchain : ∀ keys, (key a :: keys).IsChain (fun j k => before j k = true) →
              (k.toList ++ key a :: keys).IsChain fun j k => before j k = true := by
            intro keys hkeys
            cases k with
            | none => exact hkeys
            | some j => exact .cons_cons (hfirst j rfl) hkeys
          rw [hrest, List.take_one] at h
          simp only [List.head?_cons, Option.toList_some, List.getLast?_singleton,
            Option.map_some] at h
          split at h
          · obtain ⟨ps', hps', rfl⟩ := Option.map_eq_some_iff.mp h
            exact hchain _ (ih hps')
          · obtain rfl := Option.some.inj h
            exact hchain _ (.singleton _)

/-- **A stable sort agrees with an order just when that holds of each pair as it is found.** -/
theorem pairwise_insertionSort_iff {le : α → α → Bool} {lt : α → α → Prop}
    (htrans : ∀ a b c, le a b = true → le b c = true → le a c = true)
    (htotal : ∀ a b, le a b = true ∨ le b a = true) (l : List α) :
    (l.insertionSort fun a b => le a b = true).Pairwise lt ↔
      l.Pairwise fun a b => if le a b then lt a b else lt b a := by
  have total : Std.Total fun a b : α => le a b = true := ⟨htotal⟩
  have trans : IsTrans α fun a b => le a b = true := ⟨htrans⟩
  induction l with
  | nil => exact iff_of_true List.Pairwise.nil List.Pairwise.nil
  | cons a l ih =>
      have hrest : (l.insertionSort fun a b => le a b = true).Pairwise lt ↔
          l.Pairwise fun a b => if le a b then lt a b else lt b a := ih
      have hcons := List.insertionSort_cons_eq_take_drop (fun a b => le a b = true) a l
      have hl := @List.takeWhile_append_dropWhile _ (fun b => decide ¬ le a b = true)
        (l.insertionSort fun a b => le a b = true)
      have hfirst : ∀ b ∈ (l.insertionSort fun a b => le a b = true).takeWhile
          fun b => decide ¬ le a b = true, ¬ le a b = true :=
        fun b hb => of_decide_eq_true
          (List.mem_takeWhile_imp (p := fun b => decide ¬ le a b = true) hb)
      have hsorted := List.pairwise_insertionSort (fun a b => le a b = true) (a :: l)
      rw [hcons] at hsorted
      generalize (l.insertionSort fun a b => le a b = true).takeWhile
        (fun b => decide ¬ le a b = true) = l₁ at hcons hl hfirst hsorted
      generalize (l.insertionSort fun a b => le a b = true).dropWhile
        (fun b => decide ¬ le a b = true) = l₂ at hcons hl hsorted
      have hsecond : ∀ b ∈ l₂, le a b = true :=
        (List.pairwise_cons.mp (List.pairwise_append.mp hsorted).2.1).1
      have hmem : ∀ b, b ∈ l ↔ b ∈ l₁ ∨ b ∈ l₂ := by
        intro b
        rw [← List.mem_append, hl, List.mem_insertionSort]
      have hpairs : (∀ b ∈ l, if le a b then lt a b else lt b a) ↔
          (∀ b ∈ l₁, lt b a) ∧ ∀ b ∈ l₂, lt a b := by
        constructor
        · intro h
          refine ⟨?_, ?_⟩
          · intro b hb
            have hlt := h b ((hmem b).mpr (Or.inl hb))
            rwa [if_neg (hfirst b hb)] at hlt
          · intro b hb
            have hlt := h b ((hmem b).mpr (Or.inr hb))
            rwa [if_pos (hsecond b hb)] at hlt
        · rintro ⟨h₁, h₂⟩ b hb
          rcases (hmem b).mp hb with hb | hb
          · rw [if_neg (hfirst b hb)]
            exact h₁ b hb
          · rw [if_pos (hsecond b hb)]
            exact h₂ b hb
      rw [hcons, List.pairwise_cons, hpairs, ← hrest, ← hl, List.pairwise_append,
        List.pairwise_append, List.pairwise_cons]
      constructor
      · rintro ⟨h₁, ⟨ha, h₂⟩, hcross⟩
        refine ⟨⟨?_, ha⟩, h₁, h₂, ?_⟩
        · exact fun b hb => hcross b hb a List.mem_cons_self
        · exact fun b hb c hc => hcross b hb c (List.mem_cons_of_mem _ hc)
      · rintro ⟨⟨hb, ha⟩, h₁, h₂, hcross⟩
        refine ⟨h₁, ⟨ha, h₂⟩, ?_⟩
        exact fun b hb' => List.forall_mem_cons.mpr ⟨hb b hb', hcross b hb'⟩

end Keyset

end HuginAgent
