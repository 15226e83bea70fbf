/-
Queues under keys.

Answers wait in a queue for each key, and requests take them, the oldest first.  Requests come
among other things that take nothing.  The `n`th request with a key takes the `n`th answer
with it, however requests with other keys stand between them (`taken_nth`), and no answer is
taken twice (`taken_inj`).
-/
import Mathlib.Data.List.Basic
import Mathlib.Logic.Function.Basic

namespace HuginAgent

/-- A queue for each key. -/
abbrev Queues (κ ρ : Type) := κ → List ρ

namespace Queues

variable {κ ρ σ : Type} [DecidableEq κ]

/-- An answer comes in. -/
def put (queues : Queues κ ρ) (k : κ) (r : ρ) : Queues κ ρ :=
  Function.update queues k (queues k ++ [r])

/-- The oldest answer with a key, which is taken off. -/
def poll (queues : Queues κ ρ) (k : κ) : Option ρ × Queues κ ρ :=
  match queues k with
  | [] => (none, queues)
  | r :: rest => (some r, Function.update queues k rest)

/-- The queues after answers, one after the other. -/
def fill (answers : List (κ × ρ)) : Queues κ ρ :=
  answers.foldl (fun queues a => queues.put a.1 a.2) fun _ => []

/-- What each of some things takes, where those with a key are requests. -/
def serve (key : σ → Option κ) : Queues κ ρ → List σ → List (σ × Option ρ) × Queues κ ρ
  | queues, [] => ([], queues)
  | queues, s :: ss =>
      match key s with
      | none => ((s, none) :: (serve key queues ss).1, (serve key queues ss).2)
      | some k =>
          let polled := queues.poll k
          ((s, polled.1) :: (serve key polled.2 ss).1, (serve key polled.2 ss).2)

/-- The place of the answer that the thing at a place takes. -/
def taken (key : σ → Option κ) (ss : List σ) (answers : List (κ × ρ)) (i : Nat) : Option Nat :=
  (ss[i]?.bind key).bind fun k =>
    (answers.findIdxs fun a => a.1 = k)[(ss.take i).countP fun s => key s = some k]?

/-! ### One request -/

theorem poll_fst (queues : Queues κ ρ) (k : κ) : (queues.poll k).1 = (queues k).head? := by
  unfold poll
  cases queues k with
  | nil => rfl
  | cons r rest => rfl

theorem poll_self (queues : Queues κ ρ) (k : κ) : (queues.poll k).2 k = (queues k).tail := by
  unfold poll
  cases hqueue : queues k with
  | nil => exact hqueue
  | cons r rest => exact Function.update_self k rest queues

theorem poll_other (queues : Queues κ ρ) {j k : κ} (h : j ≠ k) :
    (queues.poll k).2 j = queues j := by
  unfold poll
  cases queues k with
  | nil => rfl
  | cons r rest => exact Function.update_of_ne h rest queues

/-! ### Requests -/

variable {key : σ → Option κ}

theorem serve_append (queues : Queues κ ρ) (ss ts : List σ) :
    serve key queues (ss ++ ts) =
      ((serve key queues ss).1 ++ (serve key (serve key queues ss).2 ts).1,
        (serve key (serve key queues ss).2 ts).2) := by
  induction ss generalizing queues with
  | nil => rfl
  | cons s ss ih =>
      rw [List.cons_append, serve, serve]
      cases key s with
      | none =>
          dsimp only
          rw [ih, List.cons_append]
      | some k =>
          dsimp only
          rw [ih, List.cons_append]

/-- What a thing takes is what is left of its queue by those before it. -/
theorem serve_getElem? (queues : Queues κ ρ) (ss : List σ) (i : Nat) :
    (serve key queues ss).1[i]? = ss[i]?.map fun s =>
      (s, (key s).bind fun k => (queues k)[(ss.take i).countP fun s => key s = some k]?) := by
  induction ss generalizing queues i with
  | nil => rfl
  | cons s ss ih =>
      rw [serve]
      cases hkey : key s with
      | none =>
          cases i with
          | zero => simp [hkey]
          | succ i => simp [ih, hkey]
      | some k =>
          cases i with
          | zero => simp [hkey, poll_fst, List.head?_eq_getElem?]
          | succ i =>
              dsimp only
              rw [List.getElem?_cons_succ, ih, List.getElem?_cons_succ]
              congr 1
              funext t
              congr 2
              funext j
              rw [List.take_succ_cons, List.countP_cons, hkey]
              by_cases hjk : j = k
              · rw [hjk, poll_self]
                simp
              · rw [poll_other queues hjk]
                have hne : ¬ some k = some j := fun h => hjk (Option.some.inj h).symm
                simp [hne]

/-! ### Answers -/

theorem fill_apply (answers : List (κ × ρ)) (k : κ) :
    fill answers k = (answers.filter fun a => a.1 = k).map Prod.snd := by
  have hfold : ∀ queues : Queues κ ρ,
      answers.foldl (fun queues a => queues.put a.1 a.2) queues k =
        queues k ++ (answers.filter fun a => a.1 = k).map Prod.snd := by
    induction answers with
    | nil => exact fun queues => (List.append_nil _).symm
    | cons a answers ih =>
        intro queues
        rw [List.foldl_cons, ih, put]
        by_cases hkey : a.1 = k
        · simp [hkey]
        · simp [hkey, Function.update_of_ne (Ne.symm hkey)]
  exact hfold _

/-- The elements with a property stand at the places of those with it. -/
theorem filter_getElem? {α : Type} (p : α → Bool) (l : List α) (n : Nat) :
    (l.filter p)[n]? = (l.findIdxs p)[n]?.bind fun i => l[i]? := by
  by_cases h : n < (l.filter p).length
  · have hplaces : n < (l.findIdxs p).length := by
      rwa [List.length_findIdxs, List.countP_eq_length_filter]
    have hplace := @List.getElem_findIdxs_lt _ _ _ _ 0 hplaces
    rw [List.getElem?_eq_getElem h, List.getElem?_eq_getElem hplaces, Option.bind_some,
      List.getElem?_eq_getElem hplace, List.getElem_filter_eq_getElem_getElem_findIdxs]
  · have hplaces : ¬ n < (l.findIdxs p).length := by
      rwa [List.length_findIdxs, List.countP_eq_length_filter]
    rw [List.getElem?_eq_none (Nat.le_of_not_lt h), List.getElem?_eq_none (Nat.le_of_not_lt hplaces)]
    rfl

/-- **Every request takes the answer at the place that `taken` says.** -/
theorem serve_fill (ss : List σ) (answers : List (κ × ρ)) (i : Nat) :
    (serve key (fill answers) ss).1[i]? = ss[i]?.map fun s =>
      (s, (taken key ss answers i).bind fun p => answers[p]?.map Prod.snd) := by
  rw [serve_getElem?, taken]
  cases ss[i]? with
  | none => rfl
  | some s =>
      rw [Option.map_some, Option.map_some, Option.bind_some]
      cases key s with
      | none => rfl
      | some k =>
          rw [Option.bind_some, Option.bind_some, fill_apply, List.getElem?_map, filter_getElem?,
            Option.map_bind]
          rfl

/-! ### First in, first out -/

/-- Before the `n`th place with a property there are `n` elements with it. -/
theorem count_before {α : Type} {p : α → Bool} {l : List α} {n i : Nat}
    (h : (l.findIdxs p)[n]? = some i) :
    (l.take i).countP p = n ∧ ∃ x, l[i]? = some x ∧ p x = true := by
  obtain ⟨hn, rfl⟩ := List.getElem?_eq_some_iff.mp h
  have hlt := @List.getElem_findIdxs_lt _ _ _ _ 0 hn
  refine ⟨?_, _, List.getElem?_eq_getElem hlt, List.getElem_getElem_findIdxs hn⟩
  rw [List.length_findIdxs] at hn
  rw [List.getElem_findIdxs_eq_findIdxNth, ← List.countPBefore_eq_countP_take,
    List.countPBefore_findIdxNth_of_lt_countP hn]

theorem place_count {α : Type} {p : α → Bool} {l : List α} {i : Nat} {x : α}
    (hx : l[i]? = some x) (hp : p x = true) : (l.findIdxs p)[(l.take i).countP p]? = some i := by
  obtain ⟨hi, rfl⟩ := List.getElem?_eq_some_iff.mp hx
  rw [← List.countPBefore_eq_countP_take, List.getElem?_eq_some_iff]
  have hcount := @List.countPBefore_lt_countP_of_lt_length_of_pos _ _ _ _ hi hp
  refine ⟨by rwa [List.length_findIdxs], ?_⟩
  rw [List.getElem_findIdxs_eq_findIdxNth, List.findIdxNth_countPBefore_of_lt_length_of_pos hp]

variable {ss : List σ} {answers : List (κ × ρ)}

/-- **The `n`th request with a key takes the `n`th answer with it.** -/
theorem taken_nth {k : κ} {n i : Nat} (h : (ss.findIdxs fun s => key s = some k)[n]? = some i) :
    taken key ss answers i = (answers.findIdxs fun a => a.1 = k)[n]? := by
  obtain ⟨hcount, s, hs, hkey⟩ := count_before h
  rw [taken, hs, Option.bind_some, of_decide_eq_true hkey, Option.bind_some, hcount]

/-- **No two requests take the same answer.** -/
theorem taken_inj {i j p : Nat} (hi : taken key ss answers i = some p)
    (hj : taken key ss answers j = some p) : i = j := by
  -- a place tells the key of the answer at it, and how many with the key come before it
  have hplace : ∀ {i}, taken key ss answers i = some p → ∃ k, (answers[p]?).map Prod.fst = some k ∧
      (ss.findIdxs fun s => key s = some k)[(answers.take p).countP fun a => a.1 = k]? = some i := by
    intro i h
    obtain ⟨k, hk, hp⟩ := Option.bind_eq_some_iff.mp h
    obtain ⟨s, hs, hkey⟩ := Option.bind_eq_some_iff.mp hk
    obtain ⟨hcount, a, ha, hak⟩ := count_before hp
    refine ⟨k, by rw [ha, Option.map_some, of_decide_eq_true hak], ?_⟩
    rw [hcount]
    exact place_count hs (decide_eq_true hkey)
  obtain ⟨k, hk, hplaced⟩ := hplace hi
  obtain ⟨k', hk', hplaced'⟩ := hplace hj
  obtain rfl := Option.some.inj (hk.symm.trans hk')
  exact Option.some.inj (hplaced.symm.trans hplaced')

end Queues

end HuginAgent
