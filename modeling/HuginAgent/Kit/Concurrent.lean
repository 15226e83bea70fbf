/-
Programs side by side over one state.

A program makes one call at a time; a call may fail, and what fails is thrown.  Between two calls of
one program the others make theirs, so nothing is known of the state that a call comes to but what
the others keep.  So each program is looked at by itself, and two facts carry the rest.

  * Every call keeps the invariant, and it keeps for every other program what that one relies on.
  * What a program relies on is kept by any number of such calls.

`Ensures` says both of all the calls that a program will make.  It is closed under the ways programs
are put together, and `Pool.call` is the step of the whole: all that was ensured still is.
-/
import Mathlib.Logic.Function.Basic

namespace HuginAgent

/-- A program: it has ended, with a value or by throwing, or it makes a call and goes on with what
that answers. -/
inductive Prog (C : Type) (R : C → Type) (ε α : Type) where
  | done (out : Except ε α)
  | call (c : C) (rest : Except ε (R c) → Prog C R ε α)

namespace Prog

variable {C : Type} {R : C → Type} {ε α β : Type}

/-- One program after another. -/
def andThen (p : Prog C R ε α) (next : Except ε α → Prog C R ε β) : Prog C R ε β :=
  match p with
  | .done out => next out
  | .call c rest => .call c fun r => (rest r).andThen next

instance : Monad (Prog C R ε) where
  pure a := .done (.ok a)
  bind p f := p.andThen fun
    | .ok a => f a
    | .error e => .done (.error e)

instance : MonadExcept ε (Prog C R ε) where
  throw e := .done (.error e)
  tryCatch p handler := p.andThen fun
    | .ok a => .done (.ok a)
    | .error e => handler e

/-- A single call. -/
def ask (c : C) : Prog C R ε (R c) := .call c .done

/-- Has the program ended? -/
def isDone : Prog C R ε α → Bool
  | .done _ => true
  | .call _ _ => false

end Prog

/-- What programs live by: what a call does when chance decides what is open, which calls are looked
at, the invariant, and what one program relies on while the others make their calls. -/
structure Rules (σ T χ ε C : Type) (R : C → Type) where
  perform : σ → T → (c : C) → χ → Option (Except ε (R c) × σ)
  may : σ → T → C → Prop
  inv : σ → Prop
  keeps : T → σ → σ → Prop
  keeps_refl : ∀ t s, keeps t s s
  keeps_trans : ∀ {t s s' s''}, keeps t s s' → keeps t s' s'' → keeps t s s''

section

variable {σ T χ ε C : Type} {R : C → Type} {α β : Type}

/-- Whatever the others do meanwhile, every call that the program makes keeps the invariant and what
the others rely on, and `Q` holds in the end. -/
def Ensures (D : Rules σ T χ ε C R) (t : T) :
    Prog C R ε α → (Except ε α → σ → Prop) → σ → Prop
  | .done out, Q, s => ∀ s', D.keeps t s s' → D.inv s' → Q out s'
  | .call c rest, Q, s => ∀ s', D.keeps t s s' → D.inv s' → D.may s' t c →
      ∀ x r s'', D.perform s' t c x = some (r, s'') →
        (D.inv s'' ∧ ∀ u, u ≠ t → D.keeps u s' s'') ∧ Ensures D t (rest r) Q s''

namespace Ensures

variable {D : Rules σ T χ ε C R} {t : T} {p : Prog C R ε α} {s s' : σ}
  {Q Q' : Except ε α → σ → Prop}

/-- What is ensured stays so while only the others make calls. -/
theorem kept (h : Ensures D t p Q s) (hkeeps : D.keeps t s s') : Ensures D t p Q s' := by
  cases p with
  | done out => exact fun s'' hs'' => h s'' (D.keeps_trans hkeeps hs'')
  | call c rest => exact fun s'' hs'' => h s'' (D.keeps_trans hkeeps hs'')

/-- It is enough to look at the states that the others may lead to. -/
theorem of_kept (h : ∀ s', D.keeps t s s' → D.inv s' → Ensures D t p Q s') :
    Ensures D t p Q s := by
  cases p with
  | done out => exact fun s' hs' hinv => h s' hs' hinv s' (D.keeps_refl t s') hinv
  | call c rest => exact fun s' hs' hinv => h s' hs' hinv s' (D.keeps_refl t s') hinv

theorem mono (h : Ensures D t p Q s) (hQ : ∀ out s', D.inv s' → Q out s' → Q' out s') :
    Ensures D t p Q' s := by
  induction p generalizing s with
  | done out => exact fun s' hs' hinv => hQ out s' hinv (h s' hs' hinv)
  | call c rest ih =>
      intro s' hs' hinv hmay x r s'' hperform
      obtain ⟨hstep, hrest⟩ := h s' hs' hinv hmay x r s'' hperform
      exact ⟨hstep, ih r hrest⟩

theorem pure {a : α} (h : ∀ s', D.keeps t s s' → D.inv s' → Q (.ok a) s') :
    Ensures D t (Pure.pure a) Q s := h

theorem throw {e : ε} (h : ∀ s', D.keeps t s s' → D.inv s' → Q (.error e) s') :
    Ensures D t (MonadExcept.throw e : Prog C R ε α) Q s := h

/-- One program after another: the second starts from what the first ensures. -/
theorem andThen {next : Except ε α → Prog C R ε β} {Q : Except ε β → σ → Prop}
    (h : Ensures D t p (fun out s' => Ensures D t (next out) Q s') s) :
    Ensures D t (p.andThen next) Q s := by
  induction p generalizing s with
  | done out => exact of_kept h
  | call c rest ih =>
      intro s' hs' hinv hmay x r s'' hperform
      obtain ⟨hstep, hrest⟩ := h s' hs' hinv hmay x r s'' hperform
      exact ⟨hstep, ih r hrest⟩

/-- What is ensured of the end goes on to hold. -/
theorem always (h : Ensures D t p Q s) :
    Ensures D t p (fun out s' => ∀ s'', D.keeps t s' s'' → D.inv s'' → Q out s'') s := by
  induction p generalizing s with
  | done out => exact fun s' hs' _ s'' hs'' hinv => h s'' (D.keeps_trans hs' hs'') hinv
  | call c rest ih =>
      intro s' hs' hinv hmay x r s'' hperform
      obtain ⟨hstep, hrest⟩ := h s' hs' hinv hmay x r s'' hperform
      exact ⟨hstep, ih r hrest⟩

/-- What the first program of a `do` throws, the whole throws. -/
theorem bind {f : α → Prog C R ε β} {Q : Except ε β → σ → Prop} {M : Except ε α → σ → Prop}
    (h : Ensures D t p M s)
    (hok : ∀ a s', D.inv s' → M (.ok a) s' → Ensures D t (f a) Q s')
    (herror : ∀ e s', D.inv s' → M (.error e) s' → Q (.error e) s') :
    Ensures D t (p >>= f) Q s := by
  refine andThen (h.always.mono ?_)
  intro out s' hinv hM
  cases out with
  | ok a => exact hok a s' hinv (hM s' (D.keeps_refl t s') hinv)
  | error e => exact fun s'' hs'' hinv' => herror e s'' hinv' (hM s'' hs'' hinv')

theorem tryCatch {handler : ε → Prog C R ε α} {M : Except ε α → σ → Prop}
    (h : Ensures D t p M s)
    (hok : ∀ a s', D.inv s' → M (.ok a) s' → Q (.ok a) s')
    (herror : ∀ e s', D.inv s' → M (.error e) s' → Ensures D t (handler e) Q s') :
    Ensures D t (MonadExcept.tryCatch p handler) Q s := by
  refine andThen (h.always.mono ?_)
  intro out s' hinv hM
  cases out with
  | ok a => exact fun s'' hs'' hinv' => hok a s'' hinv' (hM s'' hs'' hinv')
  | error e => exact herror e s' hinv (hM s' (D.keeps_refl t s') hinv)

theorem ask {c : C} {Q : Except ε (R c) → σ → Prop}
    (h : ∀ s', D.keeps t s s' → D.inv s' → D.may s' t c →
      ∀ x r s'', D.perform s' t c x = some (r, s'') →
        (D.inv s'' ∧ ∀ u, u ≠ t → D.keeps u s' s'') ∧
          ∀ s₃, D.keeps t s'' s₃ → D.inv s₃ → Q r s₃) :
    Ensures D t (Prog.ask c) Q s := h

end Ensures

/-- Programs side by side: the invariant holds, and each ensures what it is to. -/
structure Pool (D : Rules σ T χ ε C R) (goal : T → Except ε α → σ → Prop) (s : σ)
    (procs : T → Option (Prog C R ε α)) : Prop where
  inv : D.inv s
  each : ∀ t p, procs t = some p → Ensures D t p (goal t) s

namespace Pool

variable {D : Rules σ T χ ε C R} {goal : T → Except ε α → σ → Prop} {s s' : σ}
  {procs : T → Option (Prog C R ε α)} {t : T}

/-- The state may change under the programs, as long as all that they rely on is kept. -/
theorem kept (h : Pool D goal s procs) (hinv : D.inv s')
    (hkeeps : ∀ t p, procs t = some p → D.keeps t s s') : Pool D goal s' procs :=
  ⟨hinv, fun t p hp => (h.each t p hp).kept (hkeeps t p hp)⟩

variable [DecidableEq T]

/-- **After a call of one program all still ensure what they were to ensure, and what the others
rely on is kept.** -/
theorem call (h : Pool D goal s procs) {c : C} {rest : Except ε (R c) → Prog C R ε α}
    (hproc : procs t = some (.call c rest)) (hmay : D.may s t c) {x : χ} {r : Except ε (R c)}
    (hperform : D.perform s t c x = some (r, s')) :
    Pool D goal s' (Function.update procs t (some (rest r))) ∧ ∀ u, u ≠ t → D.keeps u s s' := by
  obtain ⟨⟨hinv, hothers⟩, hrest⟩ :=
    h.each t _ hproc s (D.keeps_refl t s) h.inv hmay x r s' hperform
  refine ⟨⟨hinv, ?_⟩, hothers⟩
  intro u p hp
  by_cases htu : u = t
  · subst htu
    rw [Function.update_self] at hp
    obtain rfl := Option.some.inj hp
    exact hrest
  · rw [Function.update_of_ne htu] at hp
    exact (h.each u p hp).kept (hothers u htu)

/-- A program is begun, or dropped. -/
theorem set (h : Pool D goal s procs) {next : Option (Prog C R ε α)}
    (hnext : ∀ p, next = some p → Ensures D t p (goal t) s) :
    Pool D goal s (Function.update procs t next) := by
  refine ⟨h.inv, ?_⟩
  intro u p hp
  by_cases htu : u = t
  · subst htu
    rw [Function.update_self] at hp
    exact hnext p hp
  · rw [Function.update_of_ne htu] at hp
    exact h.each u p hp

end Pool

end

end HuginAgent
