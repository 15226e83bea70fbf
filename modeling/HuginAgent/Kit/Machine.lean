/-
Runs of a deterministic machine.

A machine is a step function; a run is the list of its inputs.  Whatever holds of
every run is proved one step at a time, and `run_invariant` is the only induction
that is needed for it.  Two things are added.

  * A run may be subject to a condition on the state before each input.  `Along`
    is that condition, read along the run.
  * A statement may speak about the past: what was the last change, how far has
    something got.  `track` carries such a note beside the state, computed by
    looking on, so the machine itself knows nothing of it.

A machine that writes down what it does is judged by its log: each entry must be in order
after the entries before it.  As the log only grows at its end, one entry at a time is to be
looked at.
-/
import Mathlib.Data.List.Basic

namespace HuginAgent

namespace Machine

variable {σ α η : Type} (step : σ → α → σ)

/-- The state after a list of inputs. -/
def run (s : σ) (acts : List α) : σ := acts.foldl step s

@[simp] theorem run_nil (s : σ) : run step s [] = s := rfl

@[simp] theorem run_cons (s : σ) (a : α) (acts : List α) :
    run step s (a :: acts) = run step (step s a) acts := rfl

theorem run_append (s : σ) (acts more : List α) :
    run step s (acts ++ more) = run step (run step s acts) more := List.foldl_append

/-! ### Conditions along a run -/

/-- Every input of the run meets `P` in the state it comes in. -/
def Along (P : σ → α → Prop) : σ → List α → Prop
  | _, [] => True
  | s, a :: rest => P s a ∧ Along P (step s a) rest

instance decidableAlong (P : σ → α → Prop) [∀ s a, Decidable (P s a)] :
    ∀ (s : σ) (acts : List α), Decidable (Along step P s acts)
  | _, [] => .isTrue trivial
  | s, a :: rest =>
      have := decidableAlong P (step s a) rest
      inferInstanceAs (Decidable (P s a ∧ Along step P (step s a) rest))

variable {step} {P Q : σ → α → Prop}

theorem along_append {s : σ} {acts more : List α} :
    Along step P s (acts ++ more) ↔ Along step P s acts ∧ Along step P (run step s acts) more := by
  induction acts generalizing s with
  | nil => simp [Along]
  | cons a rest ih => simp only [List.cons_append, Along, ih, run_cons, and_assoc]

theorem along_mono (hPQ : ∀ s a, P s a → Q s a) {s : σ} {acts : List α} (h : Along step P s acts) :
    Along step Q s acts := by
  induction acts generalizing s with
  | nil => trivial
  | cons a rest ih => exact ⟨hPQ s a h.1, ih h.2⟩

/-- The condition, input by input. -/
theorem along_iff {s : σ} {acts : List α} :
    Along step P s acts ↔ ∀ pre a post, acts = pre ++ a :: post → P (run step s pre) a := by
  induction acts generalizing s with
  | nil => exact ⟨fun _ pre a post h => absurd h (by simp), fun _ => trivial⟩
  | cons b rest ih =>
      constructor
      · intro h pre a post hsplit
        cases pre with
        | nil =>
            obtain ⟨rfl, -⟩ := List.cons.inj hsplit
            exact h.1
        | cons c pre =>
            obtain ⟨rfl, hrest⟩ := List.cons.inj hsplit
            exact ih.mp h.2 pre a post hrest
      · intro h
        refine ⟨h [] b rest rfl, ih.mpr ?_⟩
        intro pre a post hsplit
        exact h (b :: pre) a post (by rw [hsplit]; rfl)

/-- **What every step keeps, every run keeps.** -/
theorem run_invariant (step : σ → α → σ) {I : σ → Prop}
    (hstep : ∀ s a, I s → P s a → I (step s a)) {s : σ} {acts : List α} (hs : I s) (h : Along step P s acts) : I (run step s acts) := by
  induction acts generalizing s with
  | nil => exact hs
  | cons a rest ih => exact ih (hstep s a hs h.1) h.2

/-- The same without a condition on the inputs. -/
theorem run_invariant_all (step : σ → α → σ) {I : σ → Prop}
    (hstep : ∀ s a, I s → I (step s a)) {s : σ} (hs : I s) (acts : List α) : I (run step s acts) := by
  induction acts generalizing s with
  | nil => exact hs
  | cons a rest ih => exact ih (hstep s a hs)

/-- A condition may be used together with an invariant it keeps. -/
theorem along_invariant {I : σ → Prop} (hstep : ∀ s a, I s → P s a → I (step s a)) {s : σ}
    {acts : List α} (hs : I s) (h : Along step P s acts) :
    Along step (fun s a => I s ∧ P s a) s acts := by
  induction acts generalizing s with
  | nil => trivial
  | cons a rest ih => exact ⟨⟨hs, h.1⟩, ih (hstep s a hs h.1) h.2⟩

/-- **A property holds in every state of a run exactly when every input leaves it alone.**  `J`
is an invariant of the inputs that meet `Q`. -/
theorem always_iff_of_along {J I : σ → Prop} (hJ : ∀ s a, J s → Q s a → J (step s a))
    (hI : ∀ s a, J s → Q s a → I s → (I (step s a) ↔ P s a)) {s : σ} {acts : List α} (hJs : J s)
    (hIs : I s) (h : Along step Q s acts) :
    (∀ pre post, acts = pre ++ post → I (run step s pre)) ↔ Along step P s acts := by
  induction acts generalizing s with
  | nil =>
      refine iff_of_true ?_ trivial
      intro pre post hsplit
      obtain ⟨rfl, -⟩ := List.append_eq_nil_iff.mp hsplit.symm
      exact hIs
  | cons a rest ih =>
      obtain ⟨ha, hrest⟩ := h
      have hJnext : J (step s a) := hJ s a hJs ha
      constructor
      · intro h
        have hnext : I (step s a) := h [a] rest rfl
        refine ⟨(hI s a hJs ha hIs).mp hnext, (ih hJnext hnext hrest).mp ?_⟩
        intro pre post hsplit
        exact h (a :: pre) post (by rw [hsplit]; rfl)
      · intro h pre post hsplit
        cases pre with
        | nil => exact hIs
        | cons b pre =>
            obtain ⟨rfl, hpre⟩ := List.cons.inj hsplit
            exact (ih hJnext ((hI s a hJs ha hIs).mpr h.1) hrest).mpr h.2 pre post hpre

/-- The same where `J` needs no condition. -/
theorem always_iff {J I : σ → Prop} (hJ : ∀ s a, J s → J (step s a))
    (hI : ∀ s a, J s → I s → (I (step s a) ↔ P s a)) {s : σ} {acts : List α} (hJs : J s)
    (hIs : I s) :
    (∀ pre post, acts = pre ++ post → I (run step s pre)) ↔ Along step P s acts := by
  refine always_iff_of_along (Q := fun _ _ => True) (fun s a h _ => hJ s a h)
    (fun s a h _ => hI s a h) hJs hIs ?_
  exact along_iff.mpr fun _ _ _ _ => trivial

/-- A property that no step brings about held before every input as soon as it holds at the end. -/
theorem always_iff_last {I : σ → Prop} (hI : ∀ s a, I (step s a) → I s) {s : σ} {acts : List α} :
    (∀ pre post, acts = pre ++ post → I (run step s pre)) ↔ I (run step s acts) := by
  have hback : ∀ (more : List α) (s : σ), I (run step s more) → I s := by
    intro more
    induction more with
    | nil => exact fun _ h => h
    | cons a rest ih => exact fun s h => hI s a (ih (step s a) h)
  constructor
  · intro h
    exact h acts [] (List.append_nil acts).symm
  · intro h pre post hsplit
    rw [hsplit, run_append] at h
    exact hback post _ h

/-! ### Notes on the past -/

variable (step)

/-- The note that is kept by looking at each step of a run. -/
def track (note : σ → α → η → η) : σ → η → List α → η
  | _, n, [] => n
  | s, n, a :: rest => track note (step s a) (note s a n) rest

theorem track_append (note : σ → α → η → η) (s : σ) (n : η) (acts : List α) (a : α) :
    track step note s n (acts ++ [a]) =
      note (run step s acts) a (track step note s n acts) := by
  induction acts generalizing s n with
  | nil => rfl
  | cons b rest ih => exact ih (step s b) (note s b n)

variable {step}

/-- **What every step keeps of a state and its note, every run keeps.** -/
theorem track_invariant (step : σ → α → σ) (note : σ → α → η → η) {I : σ → η → Prop}
    (hstep : ∀ s a n, I s n → P s a → I (step s a) (note s a n)) {s : σ} {n : η}
    {acts : List α} (hs : I s n) (h : Along step P s acts) :
    I (run step s acts) (track step note s n acts) := by
  induction acts generalizing s n with
  | nil => exact hs
  | cons a rest ih => exact ih (hstep s a n hs h.1) h.2

/-- The same without a condition on the inputs. -/
theorem track_invariant_all (step : σ → α → σ) (note : σ → α → η → η) {I : σ → η → Prop}
    (hstep : ∀ s a n, I s n → I (step s a) (note s a n)) {s : σ} {n : η} (hs : I s n)
    (acts : List α) : I (run step s acts) (track step note s n acts) := by
  refine track_invariant step note (P := fun _ _ => True) (fun s a n h _ => hstep s a n h) hs ?_
  exact along_iff.mpr fun _ _ _ _ => trivial

/-! ### Machines that answer -/

variable {τ β : Type}

/-- The answers of a machine to a list of calls. -/
def answers (call : σ → α → σ × β) : σ → List α → List β
  | _, [] => []
  | s, a :: rest => (call s a).2 :: answers call (call s a).1 rest

/-- **Two machines that answer each call alike, and stay related, answer every list alike.** -/
theorem answers_eq {call : σ → α → σ × β} {call' : τ → α → τ × β} {R : σ → τ → Prop}
    {P : α → Prop}
    (h : ∀ s t a, R s t → P a → (call s a).2 = (call' t a).2 ∧ R (call s a).1 (call' t a).1)
    {s : σ} {t : τ} (hst : R s t) {acts : List α} (hacts : ∀ a ∈ acts, P a) :
    answers call s acts = answers call' t acts := by
  induction acts generalizing s t with
  | nil => rfl
  | cons a rest ih =>
      obtain ⟨ha, hrest⟩ := List.forall_mem_cons.mp hacts
      obtain ⟨hanswer, hnext⟩ := h s t a hst ha
      rw [answers, answers, hanswer, ih hnext hrest]

end Machine

/-! ### Logs -/

variable {ε : Type} {C : List ε → ε → Prop} {log : List ε}

/-- Every entry of the log meets `C` with the entries before it. -/
def Logged (C : List ε → ε → Prop) (log : List ε) : Prop :=
  ∀ before e after, log = before ++ e :: after → C before e

theorem logged_nil : Logged C [] := by
  intro before e after h
  exact absurd h (by simp)

theorem logged_concat {e : ε} : Logged C (log ++ [e]) ↔ Logged C log ∧ C log e := by
  constructor
  · intro h
    refine ⟨?_, h log e [] rfl⟩
    intro before e' after hsplit
    exact h before e' (after ++ [e]) (by rw [hsplit, List.append_assoc, List.cons_append])
  · rintro ⟨hlog, he⟩ before e' after hsplit
    rcases List.eq_nil_or_concat after with rfl | ⟨after, last, rfl⟩
    · obtain ⟨rfl, hlast⟩ := List.append_inj' hsplit rfl
      obtain ⟨rfl, -⟩ := List.cons.inj hlast
      exact he
    · rw [List.concat_eq_append, ← List.cons_append, ← List.append_assoc] at hsplit
      obtain ⟨rfl, -⟩ := List.append_inj' hsplit rfl
      exact hlog before e' after rfl

/-- What every log of the machine is held to may be read off at any place of the log. -/
theorem Logged.of_mem (h : Logged C log) {e : ε} (he : e ∈ log) :
    ∃ before after, log = before ++ e :: after ∧ C before e := by
  obtain ⟨before, after, rfl⟩ := List.append_of_mem he
  exact ⟨before, after, rfl, h before e after rfl⟩

end HuginAgent
