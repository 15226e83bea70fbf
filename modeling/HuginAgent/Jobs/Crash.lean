/-
What a crash leaves in the store.

The process may die between any two statements of any handler, and no handler wraps its
statements in a transaction, so what a restart finds is a prefix of some handler's
statements.  Two statements that belong together come apart: the insert of an event and
the advance of `last_seq`, a result and the terminal status, an acknowledged result and
its attempt, an attempt and its events, the attempt's lease and the result's.

There are also whole writes that break the tables.  A run that the registry has lost, by
`ack_pending`, writes for an attempt that is gone, and a lease that is set for a finished
attempt misses its result.
-/
import HuginAgent.Jobs.Writes

namespace HuginAgent

open JobManager Ledger

variable {env : Env} {w : World}

/-- An action that is handled, or during which the process dies and is started again. -/
inductive Turn
  | handled (act : Action)
  | cut (act : Action) (effects : Nat)

/-- The process dies after so many effects of a handler, and a new one is started. -/
def crash (env : Env) (w : World) (act : Action) (effects : Nat) : World :=
  let done := (effectsOf env w act).take effects
  { step env w act with
    store := (done.filterMap Effect.stmt?).foldl Statement.run w.store
    sent := w.sent ++ done.filterMap Effect.send? }.restart

def turn (env : Env) (w : World) : Turn → World
  | .handled act => step env w act
  | .cut act effects => crash env w act effects

def runTurns (env : Env) (turns : List Turn) : World := Machine.run (turn env) World.start turns

def Turn.action : Turn → Action
  | handled act | cut act _ => act

/-- How many statements of the write a turn gets done. -/
def doneIn (env : Env) (w : World) : Turn → Nat
  | .handled act => (writeOf env w act).statements.length
  | .cut act effects => (((effectsOf env w act).take effects).filterMap Effect.stmt?).length

/-- The turn takes no write apart that needs both halves, and writes for no attempt behind its
back. -/
def Unbroken (env : Env) (w : World) (t : Turn) : Prop :=
  let write := writeOf env w t.action
  write.Spared (w.store.view write.attempt) (doneIn env w t)

theorem store_turn (env : Env) (w : World) (t : Turn) :
    (turn env w t).store =
      ((writeOf env w t.action).statements.take (doneIn env w t)).foldl Statement.run w.store := by
  cases t with
  | handled act =>
      rw [turn, step_store, doneIn, Turn.action, List.take_length]
      rfl
  | cut act effects =>
      have hprefix : ((effectsOf env w act).take effects).filterMap Effect.stmt? <+:
          (writeOf env w act).statements := by
        rw [← (effectsOf_parts env w act).1]
        exact (List.take_prefix _ _).filterMap _
      rw [Turn.action, doneIn, ← List.prefix_iff_eq_take.mp hprefix]
      rfl

theorem view_turn (env : Env) (w : World) (t : Turn) (a : JsString) :
    (turn env w t).store.view a =
      if a = (writeOf env w t.action).attempt then
        (writeOf env w t.action).upTo (w.store.view a) (doneIn env w t)
      else w.store.view a := by
  rw [store_turn, Statement.view_foldl]
  · rfl
  · intro st hst
    exact (writeOf env w t.action).attempt_statements st (List.mem_of_mem_take hst)

/-- **A turn keeps the tables together exactly when it is unbroken.** -/
theorem consistent_turn (h : w.store.Consistent) (t : Turn) :
    (turn env w t).store.Consistent ↔ Unbroken env w t := by
  have hviews := EventLog.consistent_iff.mp h
  have hspared := Write.consistent_iff_spared (hviews (writeOf env w t.action).attempt)
    (writeOf_fits env w t.action) (doneIn env w t)
  rw [Unbroken, ← hspared, EventLog.consistent_iff]
  constructor
  · intro hall
    have hown := hall (writeOf env w t.action).attempt
    rwa [view_turn, if_pos rfl] at hown
  · intro hown a
    rw [view_turn]
    split
    · rename_i ha
      exact ha ▸ hown
    · exact hviews a

theorem consistent_start : World.start.store.Consistent where
  eventsOwned := fun _ he => absurd he List.not_mem_nil
  resultsLeased := fun _ hres => absurd hres List.not_mem_nil
  resultsTerminal := fun _ hres => absurd hres List.not_mem_nil
  reportedOnce := fun _ hjob => absurd hjob List.not_mem_nil
  terminalHasResult := fun _ hrow => absurd hrow List.not_mem_nil

/-- **Every store a run leaves behind is consistent exactly when every turn is unbroken.** -/
theorem crash_consistent_iff (env : Env) (turns : List Turn) :
    (∀ pre post, turns = pre ++ post → (runTurns env pre).store.Consistent) ↔
      Machine.Along (turn env) (Unbroken env) World.start turns :=
  Machine.always_iff (J := fun _ => True) (I := fun w : World => w.store.Consistent)
    (fun _ _ _ => trivial) (fun _ t _ h => consistent_turn h t) trivial consistent_start

/-- The process dies between the insert of an event and the advance of `last_seq`. -/
theorem torn_by_event : ¬ ∀ env turns, (runTurns env turns).store.Consistent := by
  intro hall
  have h := hall (sampleEnv sampleDigest .limits)
    [.handled (sampleAssign "a" "l"), .cut (.callback 0 (.event sampleEvent)) 1]
  have hbehind : ∀ e ∈ (runTurns (sampleEnv sampleDigest .limits)
      [.handled (sampleAssign "a" "l"), .cut (.callback 0 (.event sampleEvent)) 1]).store.events.rows,
      ((runTurns (sampleEnv sampleDigest .limits) [.handled (sampleAssign "a" "l"),
        .cut (.callback 0 (.event sampleEvent)) 1]).store.attemptRow e.attemptId).map
          AttemptRow.lastSeq = some 0 ∧ e.seq = 1 := by
    decide +kernel
  have hrows : (runTurns (sampleEnv sampleDigest .limits)
      [.handled (sampleAssign "a" "l"), .cut (.callback 0 (.event sampleEvent)) 1]).store.events.rows
      ≠ [] := by
    decide +kernel
  obtain ⟨e, he⟩ := List.exists_mem_of_ne_nil _ hrows
  obtain ⟨row, hrow, hle⟩ := h.eventsOwned e he
  obtain ⟨hlast, hseq⟩ := hbehind e he
  rw [hrow, Option.map_some, Option.some.injEq] at hlast
  omega

end HuginAgent
