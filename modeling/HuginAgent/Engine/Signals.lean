/-
The signals of a run.

The end of a run clears the two timers it has numbers of.  A cancel that comes while the kill
timer of an earlier one is running takes that timer's number away, so it is not cleared and fires
after the end, whoever has the child's pid by then.  No other timer does.
-/
import HuginAgent.Engine.Ended

namespace HuginAgent

namespace ClaudeRun

variable {env : RunEnv} {st st' st'' : ClaudeRun}

/-- The numbers that the run has. -/
def stored (st : ClaudeRun) : List (Option Nat) := [st.timeoutTimer, st.killTimer]

/-- A step that ends a run with a child finds no timer armed that the run has no number of. -/
def NoneLost (st : ClaudeRun) : RunInput → Prop
  | .childError _ | .close _ _ => ¬ st.timers.Lost st.stored
  | .timer n =>
      st.timers.find n = some .timeout → ¬ (st.timers.clear (some n)).Lost st.stored
  | _ => True

/-- After the end no timer is armed, and none is before there is a child. -/
structure Settled (st : ClaudeRun) : Prop where
  ended : st.finished = true → st.timers.armed = []
  idle : st.child = none → st.timers.armed = []
  early : st.phase ≠ .ended → st.child = none

/-- What the log of a run grows by when it sends no signal. -/
def Unsignalled (st st' : ClaudeRun) : Prop :=
  ∃ effects, st'.log = st.log ++ effects ∧ ∀ e ∈ effects, e.isSignal = false

theorem Unsignalled.refl (h : st'.log = st.log) : Unsignalled st st' :=
  ⟨[], by rw [h, List.append_nil], List.forall_mem_nil _⟩

theorem Unsignalled.trans (h : Unsignalled st st') (h' : Unsignalled st' st'') : Unsignalled st st'' := by
  obtain ⟨effects, hlog, hplain⟩ := h
  obtain ⟨effects', hlog', hplain'⟩ := h'
  exact ⟨effects ++ effects', by rw [hlog', hlog, List.append_assoc],
    List.forall_mem_append.mpr ⟨hplain, hplain'⟩⟩

theorem Tells.unsignalled (h : Tells st st') : Unsignalled st st' := by
  obtain ⟨effects, hplain, hlog⟩ := h.log
  exact ⟨effects, hlog, fun e he => (hplain e he).2⟩

theorem finish_unsignalled (env : RunEnv) (st : ClaudeRun) (outcome : EngineOutcome) :
    Unsignalled st (st.finish env outcome) := by
  unfold finish
  split
  · exact .refl rfl
  · exact ⟨[.done outcome], rfl, List.forall_mem_singleton.mpr rfl⟩

theorem abort_unsignalled (env : RunEnv) (st : ClaudeRun) (ev : JsObject) (errorKind : JsString) :
    Unsignalled st (st.abort env ev errorKind) := by
  have hemit := (emit_tells env .engine { st with phase := .ended } ev).1.unsignalled
  exact Unsignalled.trans hemit (finish_unsignalled env _ _)

/-- **After its end a run sends no signal, if no timer is armed.** -/
theorem handle_unsignalled (env : RunEnv) (hfinished : st.finished = true) (harmed : st.timers.armed = [])
    (input : RunInput) : Unsignalled st (st.handle env input) := by
  cases input with
  | start worktree spawned =>
      unfold handle start
      dsimp only
      rw [if_pos hfinished]
      exact .refl rfl
  | bridgeFailed message => exact abort_unsignalled env st _ _
  | bridgeStarted config spawned =>
      unfold handle bridgeStarted
      dsimp only
      rw [if_pos hfinished]
      exact .refl rfl
  | stdout chunk =>
      exact (drain_tells env { st with stdoutBuf := st.stdoutBuf ++ utf8Decode chunk }).unsignalled
  | stderr chunk => exact (emit_tells env .stderr st _).1.unsignalled
  | childError error =>
      exact (emit_tells env .engine st _).1.unsignalled.trans (finish_unsignalled env _ _)
  | close code signalled =>
      unfold handle close
      dsimp only
      split
      · exact (drain_tells env st).unsignalled
      · exact (drain_tells env st).unsignalled.trans (finish_unsignalled env _ _)
  | timer n =>
      unfold handle fire
      dsimp only
      rw [Timers.find_of_armed_nil harmed]
      exact .refl rfl
  | approval req =>
      unfold handle raise
      dsimp only
      split
      · exact ⟨[.approval req], rfl, List.forall_mem_singleton.mpr rfl⟩
      · exact .refl rfl
  | pause => exact ⟨[.paused], rfl, List.forall_mem_singleton.mpr rfl⟩
  | resume =>
      have hresumed : Unsignalled st { st.note .resumed with paused := false } :=
        ⟨[.resumed], rfl, List.forall_mem_singleton.mpr rfl⟩
      exact hresumed.trans (drain_tells env { st.note .resumed with paused := false }).unsignalled
  | cancel graceMs =>
      have hends : (st.child.isNone || st.finished) = true := by rw [hfinished, Bool.or_true]
      unfold handle cancel
      dsimp only
      rw [if_pos hends]
      exact finish_unsignalled env { st with cancelled := true } _

/-! ### The timers that are armed -/

/-- The timers stay, and so does what they hang on. -/
structure Keeps (st st' : ClaudeRun) : Prop where
  timers : st'.timers = st.timers
  stored : st'.stored = st.stored
  child : st'.child = st.child
  phase : st'.phase = st.phase
  finished : st'.finished = st.finished

theorem Tells.keeps (h : Tells st st') : Keeps st st' := by
  obtain ⟨effects, -, hst'⟩ := h
  rw [hst']
  exact ⟨rfl, rfl, rfl, rfl, rfl⟩

theorem killGroup_keeps (st : ClaudeRun) (sig : RunSignal) : Keeps st (st.killGroup sig) := by
  unfold killGroup
  split
  · exact ⟨rfl, rfl, rfl, rfl, rfl⟩
  · exact ⟨rfl, rfl, rfl, rfl, rfl⟩

theorem Keeps.settled (h : Keeps st st') (hst : Settled st) : Settled st' := by
  refine ⟨?_, ?_, ?_⟩
  · rw [h.finished, h.timers]
    exact hst.ended
  · rw [h.child, h.timers]
    exact hst.idle
  · rw [h.phase, h.child]
    exact hst.early

theorem armed_clear {κ : Type} {t : Timers κ} (h : t.armed = []) (stored : List (Option Nat)) :
    (stored.foldl Timers.clear t).armed = [] :=
  (t.clear_all_iff stored).mpr fun ⟨p, hp, _⟩ => by
    rw [h] at hp
    exact absurd hp List.not_mem_nil

/-- What the end clears. -/
theorem finish_settled (hst : Settled st) (hnone : st.finished = false → ¬ st.timers.Lost st.stored)
    (outcome : EngineOutcome) : Settled (st.finish env outcome) := by
  unfold finish
  split
  · exact hst
  · rename_i hfinished
    have hclear : (st.stored.foldl Timers.clear st.timers).armed = [] :=
      (st.timers.clear_all_iff st.stored).mpr (hnone (Bool.eq_false_iff.mpr hfinished))
    exact ⟨fun _ => hclear, fun _ => hclear, hst.early⟩

/-- Where no timer is armed none is lost. -/
theorem not_lost (harmed : st.timers.armed = []) : ¬ st.timers.Lost st.stored :=
  (st.timers.clear_all_iff st.stored).mp (armed_clear harmed st.stored)

theorem abort_settled (hst : Settled st) (hphase : st.phase ≠ .ended) (ev : JsObject)
    (errorKind : JsString) : Settled (st.abort env ev errorKind) := by
  have hchild := hst.early hphase
  have hended : Settled { st with phase := .ended } :=
    ⟨hst.ended, hst.idle, fun h => absurd rfl h⟩
  have hkeeps := (emit_tells env .engine { st with phase := .ended } ev).1.keeps
  refine finish_settled (hkeeps.settled hended) (fun _ => ?_) _
  refine not_lost ?_
  rw [hkeeps.timers]
  exact hst.idle hchild

theorem spawn_settled (st : ClaudeRun) (hchild : st.child = none) (hst : Settled st) (hfinished : st.finished = false)
    (spawned : SpawnResult) : Settled (st.spawn env spawned) := by
  cases spawned with
  | throws => exact ⟨hst.ended, hst.idle, fun h => absurd rfl h⟩
  | child pid =>
      unfold spawn setTimeoutTimer
      dsimp only
      split
      · refine ⟨fun h => ?_, (fun h => nomatch h), fun h => absurd rfl h⟩
        rw [hfinished] at h
        exact nomatch h
      · exact ⟨fun _ => hst.idle hchild, fun _ => hst.idle hchild, fun h => absurd rfl h⟩

theorem handle_settled (hst : Settled st) {input : RunInput} (hadmits : st.Admits input = true)
    (hnone : NoneLost st input) : Settled (st.handle env input) := by
  cases input with
  | start worktree spawned =>
      have hphase : st.phase ≠ .ended := by
        rw [of_decide_eq_true hadmits]
        decide
      unfold handle start
      dsimp only
      split
      · exact ⟨hst.ended, hst.idle, fun h => absurd rfl h⟩
      · rename_i hfinished
        split
        · exact abort_settled hst hphase _ _
        · split
          · exact ⟨hst.ended, hst.idle, fun _ => hst.early hphase⟩
          · have hworktree : Settled { st with worktree := true } := ⟨hst.ended, hst.idle, hst.early⟩
            exact spawn_settled { st with worktree := true } (hst.early hphase) hworktree (Bool.eq_false_iff.mpr hfinished) spawned
  | bridgeFailed message =>
      refine abort_settled hst ?_ _ _
      rw [of_decide_eq_true hadmits]
      decide
  | bridgeStarted config spawned =>
      have hphase : st.phase ≠ .ended := by
        rw [of_decide_eq_true hadmits]
        decide
      unfold handle bridgeStarted
      dsimp only
      split
      · exact ⟨hst.ended, hst.idle, fun h => absurd rfl h⟩
      · rename_i hfinished
        split
        · exact abort_settled hst hphase _ _
        · exact spawn_settled st (hst.early hphase) hst (Bool.eq_false_iff.mpr hfinished) spawned
  | stdout chunk =>
      have hkeeps := (drain_tells env { st with stdoutBuf := st.stdoutBuf ++ utf8Decode chunk }).keeps
      exact hkeeps.settled ⟨hst.ended, hst.idle, hst.early⟩
  | stderr chunk => exact (emit_tells env .stderr st _).1.keeps.settled hst
  | childError error =>
      have hkeeps := (emit_tells env .engine st (engineError error)).1.keeps
      refine finish_settled (hkeeps.settled hst) (fun _ => ?_) _
      rw [hkeeps.timers, hkeeps.stored]
      exact hnone
  | close code signalled =>
      have hkeeps := (drain_tells env st).keeps
      unfold handle close
      dsimp only
      split
      · exact hkeeps.settled hst
      · refine finish_settled (hkeeps.settled hst) (fun _ => ?_) _
        rw [hkeeps.timers, hkeeps.stored]
        exact hnone
  | timer n =>
      have hclear : st.timers.armed = [] → (st.timers.clear (some n)).armed = [] :=
        fun h => armed_clear h [some n]
      unfold handle fire
      dsimp only
      split
      · exact hst
      · rename_i hfind
        have hcleared : Settled { st with timers := st.timers.clear (some n), cancelled := true } :=
          ⟨fun h => hclear (hst.ended h), fun h => hclear (hst.idle h), hst.early⟩
        have hkeeps := killGroup_keeps
          { st with timers := st.timers.clear (some n), cancelled := true } .kill
        refine finish_settled (hkeeps.settled hcleared) (fun _ => ?_) _
        rw [hkeeps.timers, hkeeps.stored]
        exact hnone hfind
      · have hcleared : Settled { st with timers := st.timers.clear (some n) } :=
          ⟨fun h => hclear (hst.ended h), fun h => hclear (hst.idle h), hst.early⟩
        exact (killGroup_keeps _ .kill).settled hcleared
  | approval req =>
      unfold handle raise
      dsimp only
      split
      · exact ⟨hst.ended, hst.idle, hst.early⟩
      · exact hst
  | pause => exact ⟨hst.ended, hst.idle, hst.early⟩
  | resume =>
      have hkeeps := (drain_tells env { st.note .resumed with paused := false }).keeps
      exact hkeeps.settled ⟨hst.ended, hst.idle, hst.early⟩
  | cancel graceMs =>
      have hcancelled : Settled { st with cancelled := true } := ⟨hst.ended, hst.idle, hst.early⟩
      unfold handle cancel
      dsimp only
      by_cases hends : (st.child.isNone || st.finished) = true
      · rw [if_pos hends]
        refine finish_settled hcancelled (fun hfinished => not_lost ?_) _
        rw [show st.finished = false from hfinished, Bool.or_false, Option.isNone_iff_eq_none] at hends
        exact hst.idle hends
      · rw [if_neg hends]
        rw [Bool.or_eq_true, not_or, Bool.not_eq_true, Bool.not_eq_true] at hends
        obtain ⟨hsome, hfinished⟩ := hends
        have hkeeps := killGroup_keeps { st with cancelled := true } .term
        refine ⟨fun h => ?_, fun h => ?_, (hkeeps.settled hcancelled).early⟩
        · have hunfinished : (({ st with cancelled := true }.killGroup .term).setKillTimer).finished = false :=
            hkeeps.finished.trans hfinished
          rw [hunfinished] at h
          exact nomatch h
        · have hchild : (({ st with cancelled := true }.killGroup .term).setKillTimer).child = st.child :=
            hkeeps.child
          rw [hchild] at h
          rw [h] at hsome
          exact nomatch hsome

/-- What is kept of a run in which no timer is lost. -/
structure Silenced (st : ClaudeRun) : Prop where
  once : Ended st
  settled : Settled st
  log : NoneAfterDone RunEffect.isSignal st.log

theorem step_silenced (hst : Silenced st) (input : RunInput)
    (hnone : st.fault = none → st.Admits input = true → NoneLost st input) :
    Silenced (step env st input) := by
  unfold step
  by_cases hcomes : (st.fault.isSome || !st.Admits input) = true
  · rw [if_pos hcomes]
    exact hst
  rw [if_neg hcomes]
  rw [Bool.or_eq_true, not_or, Bool.not_eq_true, Bool.not_eq_true, Option.isSome_eq_false_iff,
    Option.isNone_iff_eq_none, Bool.not_eq_false'] at hcomes
  obtain ⟨hfault, hadmits⟩ := hcomes
  have hsteps := handle_steps env st input
  refine ⟨hsteps.ended hst.once, handle_settled hst.settled hadmits (hnone hfault hadmits), ?_⟩
  by_cases hfinished : st.finished = true
  · obtain ⟨effects, hlog, hplain⟩ :=
      handle_unsignalled env hfinished (hst.settled.ended hfinished) input
    have hdone : ∃ e ∈ st.log, e.isDone = true := by
      have hcount := hst.once.once
      rw [hfinished] at hcount
      exact List.countP_pos_iff.mp (by rw [hcount]; exact Nat.one_pos)
    rw [hlog, noneAfterDone_append_iff hst.log hdone]
    exact hplain
  · exact hsteps.unended hst.once (Bool.eq_false_iff.mpr hfinished)

theorem run_silenced (env : RunEnv) (inputs : List RunInput)
    (h : Machine.Along (step env)
      (fun st input => st.fault = none → st.Admits input = true → NoneLost st input)
      (fresh env) inputs) : Silenced (run env inputs) := by
  refine Machine.run_invariant (I := Silenced) (step env)
    (fun st input hst hnone => step_silenced hst input hnone) ?_ h
  refine ⟨fresh_ended env, ⟨fun _ => rfl, fun _ => rfl, fun _ => rfl⟩, ?_⟩
  exact noneAfterDone_of_not_done (List.forall_mem_nil _) (Or.inl rfl)

end ClaudeRun

end HuginAgent
