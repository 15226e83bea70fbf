/-
The signals of the runs, of jobs and of resumed sessions.

A resumed session has one timer, that of a cancel, and its end clears the one it has the number
of.  As in a job, the number is lost when a cancel comes while the timer of an earlier one is
running, and that one fires after the end.
-/
import HuginAgent.Engine.Output
import HuginAgent.Engine.Signals
import HuginAgent.Sessions.Runner

namespace HuginAgent

namespace ResumeRun

open ClaudeRun (SpawnResult)

variable {env : RunnerEnv} {st st' st'' : ResumeRun}

/-! ### What is told and read -/

/-- Only events are told and pauses taken, and output is read and kept. -/
def Works (st st' : ResumeRun) : Prop :=
  ∃ effects, (∀ e ∈ effects, e.isDone = false ∧ e.isSignal = false) ∧
    (st'.fault = st.fault ∨ st'.fault = some .callback) ∧
    st' = { st with
      log := st.log ++ effects
      paused := st'.paused
      stdoutBuf := st'.stdoutBuf
      stderrTail := st'.stderrTail
      finalAssistantText := st'.finalAssistantText
      finalResultText := st'.finalResultText
      newSessionId := st'.newSessionId
      pendingEvents := st'.pendingEvents
      fault := st'.fault }

theorem Works.refl (st : ResumeRun) : Works st st :=
  ⟨[], List.forall_mem_nil _, Or.inl rfl, by rw [List.append_nil]⟩

theorem Works.trans (h : Works st st') (h' : Works st' st'') : Works st st'' := by
  obtain ⟨effects, hplain, hfault, hst'⟩ := h
  obtain ⟨effects', hplain', hfault', hst''⟩ := h'
  refine ⟨effects ++ effects', List.forall_mem_append.mpr ⟨hplain, hplain'⟩, ?_, ?_⟩
  · rcases hfault' with h | h
    · rw [h]
      exact hfault
    · exact Or.inr h
  · rw [hst'', hst']
    simp only [List.append_assoc]

/-- Something else is kept. -/
theorem Works.kept (h : st' = { st with
      stdoutBuf := st'.stdoutBuf
      stderrTail := st'.stderrTail
      finalAssistantText := st'.finalAssistantText
      finalResultText := st'.finalResultText
      newSessionId := st'.newSessionId
      pendingEvents := st'.pendingEvents }) : Works st st' := by
  refine ⟨[], List.forall_mem_nil _, Or.inl ?_, ?_⟩
  · rw [h]
  · rw [h, List.append_nil]

theorem pause_works (st : ResumeRun) : Works st st.pause := by
  have hplain : ∀ e ∈ [RunEffect.paused], e.isDone = false ∧ e.isSignal = false :=
    List.forall_mem_singleton.mpr ⟨rfl, rfl⟩
  unfold pause
  split
  · exact ⟨[.paused], hplain, Or.inl rfl, rfl⟩
  · exact ⟨[.paused], hplain, Or.inl rfl, rfl⟩

theorem tell_works (env : RunnerEnv) (st : ResumeRun) (ev : EventSource × JsObject) :
    Works st (st.tell env ev) := by
  have hnoted : Works st (st.note (.event ev.1 ev.2)) :=
    ⟨[.event ev.1 ev.2], List.forall_mem_singleton.mpr ⟨rfl, rfl⟩, Or.inl rfl, rfl⟩
  unfold tell
  split
  · exact hnoted.trans (pause_works _)
  · exact hnoted

theorem emit_works (env : RunnerEnv) (source : EventSource) (st : ResumeRun) (ev : JsObject) :
    Works st (st.emit env source ev) := by
  unfold emit
  split
  · exact .kept rfl
  · exact tell_works env st _

theorem flushEvents_works (env : RunnerEnv) (events : List (EventSource × JsObject))
    (st : ResumeRun) : Works st (flushEvents env events st) := by
  induction events generalizing st with
  | nil => exact .kept rfl
  | cons ev rest ih =>
      rw [flushEvents]
      split
      · exact .kept rfl
      · exact (tell_works env st ev).trans (ih _)

theorem emitAll_works (env : RunnerEnv) (source : EventSource) (st : ResumeRun)
    (events : List JsObject) : Works st (events.foldl (emit env source) st) := by
  induction events generalizing st with
  | nil => exact .refl st
  | cons ev rest ih => exact (emit_works env source st ev).trans (ih _)

theorem observeLine_works (st : ResumeRun) (line : JsValue) : Works st (st.observeLine line) := by
  unfold observeLine
  split
  · exact .kept rfl
  · exact .refl st

theorem observeEvent_works (st : ResumeRun) (ev : JsObject) : Works st (st.observeEvent ev) := by
  unfold observeEvent
  split
  · split
    · exact .kept rfl
    · exact .refl st
  · exact .refl st

theorem emitObserved_works (env : RunnerEnv) (st : ResumeRun) (events : List JsObject) :
    Works st (events.foldl (fun st ev => (st.observeEvent ev).emit env .stdout ev) st) := by
  induction events generalizing st with
  | nil => exact .refl st
  | cons ev rest ih =>
      exact ((observeEvent_works st ev).trans (emit_works env .stdout _ ev)).trans (ih _)

/-- What a reader throws ends the process. -/
theorem throws_works (st : ResumeRun) : Works st { st with fault := some .callback } :=
  ⟨[], List.forall_mem_nil _, Or.inr rfl, by rw [List.append_nil]⟩

theorem parseAndEmit_works (env : RunnerEnv) (st : ResumeRun) (line : JsString) :
    Works st (st.parseAndEmit env line) := by
  unfold parseAndEmit
  split
  · exact .refl st
  split
  · exact .refl st
  · split
    · split
      · exact (observeLine_works st _).trans (throws_works _)
      · exact (observeLine_works st _).trans (emitAll_works env .stdout _ _)
    · split
      · exact throws_works st
      · exact emitObserved_works env st _

theorem drainLines_works (env : RunnerEnv) (lines : List JsString) (rest : JsString)
    (st : ResumeRun) : Works st (drainLines env lines rest st) := by
  induction lines generalizing st with
  | nil => exact .kept rfl
  | cons line lines ih =>
      rw [drainLines]
      split
      · exact (parseAndEmit_works env st line).trans (.kept rfl)
      · exact (parseAndEmit_works env st line).trans (ih _)

theorem flushTail_works (env : RunnerEnv) (st : ResumeRun) : Works st (st.flushTail env) := by
  unfold flushTail
  split
  · exact .refl st
  · have hkept : Works st { st with stdoutBuf := [] } := .kept rfl
    exact hkept.trans (parseAndEmit_works env _ _)

theorem drain_works (env : RunnerEnv) (flush : Bool) (st : ResumeRun) :
    Works st (st.drain env flush) := by
  unfold drain
  dsimp only
  split
  · exact (drainLines_works env _ _ st).trans (flushTail_works env _)
  · exact drainLines_works env _ _ st

/-! ### What a step does -/

/-- Something is told and read, and then the run may end. -/
def Goes (env : RunnerEnv) (st st' : ResumeRun) : Prop :=
  ∃ mid, Works st mid ∧ (st' = mid ∨ ∃ outcome, st' = mid.finish env outcome)

theorem Works.goes (h : Works st st') (env : RunnerEnv) : Goes env st st' := ⟨st', h, Or.inl rfl⟩

theorem Works.ends (h : Works st st') (env : RunnerEnv) (outcome : EngineOutcome) :
    Goes env st (st'.finish env outcome) :=
  ⟨st', h, Or.inr ⟨outcome, rfl⟩⟩

theorem Works.then (h : Works st st') (h' : Goes env st' st'') : Goes env st st'' := by
  obtain ⟨mid, hmid, hends⟩ := h'
  exact ⟨mid, h.trans hmid, hends⟩

theorem maybeFinishClosed_goes (env : RunnerEnv) (st : ResumeRun) :
    Goes env st (st.maybeFinishClosed env) := by
  unfold maybeFinishClosed
  split
  · exact (Works.refl st).goes env
  · split
    · exact (Works.refl st).ends env _
    split
    · exact (Works.refl st).goes env
    split
    · exact (drain_works env true st).goes env
    · exact (drain_works env true st).ends env _

theorem resumeOutput_goes (env : RunnerEnv) (st : ResumeRun) :
    Goes env st (st.resumeOutput env) := by
  unfold resumeOutput
  dsimp only
  split
  · exact (Works.refl st).goes env
  split
  · exact (drain_works env _ st).goes env
  · exact (drain_works env _ st).then (maybeFinishClosed_goes env _)

/-- Before the close a run is not ended when it is resumed. -/
theorem resumeOutput_works (h : st.closeOutcome = none) : Works st (st.resumeOutput env) := by
  unfold resumeOutput
  dsimp only
  split
  · exact .refl st
  split
  · exact drain_works env _ st
  · have hdrain := drain_works env st.closeOutcome.isSome st
    have hopen : (st.drain env st.closeOutcome.isSome).closeOutcome = none := by
      obtain ⟨effects, -, -, hst'⟩ := hdrain
      rw [hst']
      exact h
    rw [maybeFinishClosed, hopen]
    exact hdrain

theorem resumed_works (env : RunnerEnv) (st : ResumeRun) :
    Works st ({ st.note .resumed with paused := false }.flushPendingEvents env) := by
  have hresumed : Works st { st.note .resumed with paused := false } :=
    ⟨[.resumed], List.forall_mem_singleton.mpr ⟨rfl, rfl⟩, Or.inl rfl, rfl⟩
  exact hresumed.trans (flushEvents_works env _ _)

theorem resume_goes (env : RunnerEnv) (st : ResumeRun) : Goes env st (st.resume env) := by
  unfold resume
  split
  · have hresumed : Works st (st.note .resumed) :=
      ⟨[.resumed], List.forall_mem_singleton.mpr ⟨rfl, rfl⟩, Or.inl rfl, rfl⟩
    exact hresumed.goes env
  · exact (resumed_works env st).then (resumeOutput_goes env _)

theorem stdoutData_works (env : RunnerEnv) (st : ResumeRun) (chunk : List UInt8) :
    Works st (st.stdoutData env chunk) := by
  have hkept : Works st { st with stdoutBuf := st.stdoutBuf ++ utf8Decode chunk } := .kept rfl
  unfold stdoutData
  split
  · exact hkept
  · exact hkept.trans (drain_works env false _)

theorem stderrData_works (env : RunnerEnv) (st : ResumeRun) (chunk : List UInt8) :
    Works st (st.stderrData env chunk) := by
  generalize hunits : stderrTailUnits = units
  have hkept : Works st { st with
      stderrTail := (st.stderrTail ++ utf8Decode chunk).drop
        ((st.stderrTail ++ utf8Decode chunk).length - units) } := .kept rfl
  unfold stderrData
  rw [hunits]
  exact hkept.trans (emit_works env .stderr _ _)

/-! ### The log -/

/-- The log grows by something that is no end, and then the run may end. -/
def LogStep (st st' : ResumeRun) : Prop :=
  ∃ effects, (∀ e ∈ effects, e.isDone = false) ∧
    (st'.log = st.log ++ effects ∧ st'.finished = st.finished ∨
      ∃ outcome, st.finished = false ∧ st'.finished = true ∧
        st'.log = st.log ++ effects ++ [.done outcome])

theorem LogStep.same (hlog : st'.log = st.log) (hfinished : st'.finished = st.finished) :
    LogStep st st' :=
  ⟨[], List.forall_mem_nil _, Or.inl ⟨by rw [hlog, List.append_nil], hfinished⟩⟩

theorem Goes.logStep (h : Goes env st st') : LogStep st st' := by
  obtain ⟨mid, ⟨effects, hplain, -, hmid⟩, hends⟩ := h
  have hlog : mid.log = st.log ++ effects := by rw [hmid]
  have hfinished : mid.finished = st.finished := by rw [hmid]
  refine ⟨effects, fun e he => (hplain e he).1, ?_⟩
  rcases hends with rfl | ⟨outcome, rfl⟩
  · exact Or.inl ⟨hlog, hfinished⟩
  · unfold finish
    split
    · exact Or.inl ⟨hlog, hfinished⟩
    · rename_i hunfinished
      refine Or.inr ⟨outcome, hfinished ▸ Bool.eq_false_iff.mpr hunfinished, rfl, ?_⟩
      show mid.log ++ [.done outcome] = _
      rw [hlog]

/-- The same from a state that differs in what nobody sees. -/
theorem LogStep.of_same (h : LogStep st' st'') (hlog : st'.log = st.log)
    (hfinished : st'.finished = st.finished) : LogStep st st'' := by
  unfold LogStep at h ⊢
  rw [hlog, hfinished] at h
  exact h

theorem killGroup_log (st : ResumeRun) (sig : RunSignal) : LogStep st (st.killGroup sig) := by
  unfold killGroup
  split
  · exact ⟨[.signal sig], List.forall_mem_singleton.mpr rfl, Or.inl ⟨rfl, rfl⟩⟩
  · exact .same rfl rfl

theorem handle_log (env : RunnerEnv) (st : ResumeRun) (input : RunnerInput) :
    LogStep st (st.handle env input) := by
  cases input with
  | start spawned =>
      unfold handle start
      dsimp only
      split
      · exact .same rfl rfl
      split
      · have hgoes := (Works.refl { st with started := true }).ends env .cancelled
        exact hgoes.logStep
      · cases spawned with
        | throws => exact .same rfl rfl
        | child pid => exact .same rfl rfl
  | stdout chunk => exact ((stdoutData_works env st chunk).goes env).logStep
  | stderr chunk => exact ((stderrData_works env st chunk).goes env).logStep
  | childError error => exact ((emit_works env .engine st _).ends env _).logStep
  | close code signalled =>
      unfold handle close
      dsimp only
      exact (maybeFinishClosed_goes env _).logStep
  | timer n =>
      unfold handle fire
      dsimp only
      split
      · exact .same rfl rfl
      · exact (killGroup_log { st with timers := st.timers.clear (some n) } .kill).of_same rfl rfl
  | ending => exact ((Works.refl { st with ending := false }).ends env .cancelled).logStep
  | pause => exact ((pause_works st).goes env).logStep
  | resume => exact (resume_goes env st).logStep
  | cancel graceMs =>
      unfold handle cancel
      dsimp only
      split
      · exact .same rfl rfl
      split
      · exact .same rfl rfl
      · exact (killGroup_log { st with cancelled := true } .term).of_same rfl rfl

/-- The end is told once. -/
def Once (st : ResumeRun) : Prop := st.log.countP RunEffect.isDone = st.finished.toNat

theorem Once.plain (h : Once st) (hfinished : st.finished = false) : ∀ e ∈ st.log, e.isDone = false := by
  unfold Once at h
  rw [hfinished, Bool.toNat_false, List.countP_eq_zero] at h
  exact fun e he => Bool.eq_false_iff.mpr (h e he)

theorem LogStep.once (h : LogStep st st') (hst : Once st) : Once st' := by
  obtain ⟨effects, hplain, ⟨hlog, hfinished⟩ | ⟨outcome, hfalse, htrue, hlog⟩⟩ := h
  · unfold Once
    rw [hlog, hfinished, List.countP_append, ClaudeRun.countP_of_plain hplain]
    exact hst
  · have hcount : st.log.countP RunEffect.isDone = 0 := by
      rw [hst, hfalse]
      rfl
    unfold Once
    rw [hlog, htrue, List.countP_append, List.countP_append, ClaudeRun.countP_of_plain hplain, hcount]
    rfl

/-- A run that has not ended has a log without an end. -/
theorem LogStep.unended (h : LogStep st st') (hst : Once st) (hfinished : st.finished = false)
    (p : RunEffect → Bool) : NoneAfterDone p st'.log := by
  have hbefore := hst.plain hfinished
  obtain ⟨effects, hplain, ⟨hlog, -⟩ | ⟨outcome, -, -, hlog⟩⟩ := h
  · have hall := List.forall_mem_append.mpr ⟨hbefore, hplain⟩
    have hnone := noneAfterDone_of_not_done (p := p) hall (Or.inl rfl)
    rw [List.append_nil, ← hlog] at hnone
    exact hnone
  · rw [hlog]
    exact noneAfterDone_of_not_done (List.forall_mem_append.mpr ⟨hbefore, hplain⟩) (Or.inr ⟨outcome, rfl⟩)

theorem run_once (env : RunnerEnv) (inputs : List RunnerInput) : Once (run env inputs) := by
  have hfresh : Once (fresh env) := rfl
  refine Machine.run_invariant_all (step env) ?_ hfresh inputs
  intro st input hst
  unfold step
  split
  · exact hst
  · exact (handle_log env st input).once hst

/-! ### The timers that are armed -/

/-- The number that the run has. -/
def stored (st : ResumeRun) : List (Option Nat) := [st.killTimer]

/-- A step that may end a run with a child finds no timer armed that the run has no number of. -/
def NoneLost (st : ResumeRun) : RunnerInput → Prop
  | .childError _ | .close _ _ | .ending => ¬ st.timers.Lost st.stored
  | .resume => st.closeOutcome.isSome = true → ¬ st.timers.Lost st.stored
  | _ => True

/-- After the end no timer is armed, and none is before there is a child. -/
structure Settled (st : ResumeRun) : Prop where
  ended : st.finished = true → st.timers.armed = []
  idle : st.child = none → st.timers.armed = []
  early : st.started = false → st.child = none

theorem Works.settled (h : Works st st') (hst : Settled st) : Settled st' := by
  obtain ⟨effects, -, -, hst'⟩ := h
  rw [hst']
  exact ⟨hst.ended, hst.idle, hst.early⟩

/-- What the end clears. -/
theorem finish_settled (hst : Settled st) (hnone : st.finished = false → ¬ st.timers.Lost st.stored)
    (outcome : EngineOutcome) : Settled (st.finish env outcome) := by
  unfold finish
  split
  · exact hst
  · rename_i hfinished
    have hclear : (st.stored.foldl Timers.clear st.timers).armed = [] :=
      (st.timers.clear_all_iff st.stored).mpr (hnone (Bool.eq_false_iff.mpr hfinished))
    exact ⟨fun _ => hclear, fun _ => hclear, hst.early⟩

theorem Goes.settled (h : Goes env st st') (hst : Settled st) (hnone : ¬ st.timers.Lost st.stored) :
    Settled st' := by
  obtain ⟨mid, hmid, rfl | ⟨outcome, rfl⟩⟩ := h
  · exact hmid.settled hst
  · refine finish_settled (hmid.settled hst) (fun _ => ?_) outcome
    obtain ⟨effects, -, -, hsame⟩ := hmid
    rw [hsame]
    exact hnone

theorem handle_settled (hst : Settled st) {input : RunnerInput} (hadmits : st.Admits input = true)
    (hnone : NoneLost st input) : Settled (st.handle env input) := by
  cases input with
  | start spawned =>
      have hdeferred : st.started = false := by
        rw [Admits, Bool.not_eq_true'] at hadmits
        exact hadmits
      have hchild := hst.early hdeferred
      have harmed := hst.idle hchild
      have hstarted : Settled { st with started := true } :=
        ⟨hst.ended, hst.idle, (fun h => nomatch h)⟩
      unfold handle start
      dsimp only
      split
      · exact hstarted
      split
      · refine finish_settled hstarted (fun _ => ?_) _
        exact (st.timers.clear_all_iff st.stored).mp (ClaudeRun.armed_clear harmed st.stored)
      · cases spawned with
        | throws => exact ⟨hst.ended, hst.idle, (fun h => nomatch h)⟩
        | child pid => exact ⟨fun _ => harmed, fun _ => harmed, (fun h => nomatch h)⟩
  | stdout chunk => exact (stdoutData_works env st chunk).settled hst
  | stderr chunk => exact (stderrData_works env st chunk).settled hst
  | childError error => exact ((emit_works env .engine st _).ends env _).settled hst hnone
  | close code signalled =>
      unfold handle close
      dsimp only
      exact (maybeFinishClosed_goes env _).settled ⟨hst.ended, hst.idle, hst.early⟩ hnone
  | timer n =>
      have hclear : st.timers.armed = [] → (st.timers.clear (some n)).armed = [] :=
        fun h => ClaudeRun.armed_clear h [some n]
      unfold handle fire
      dsimp only
      split
      · exact hst
      · unfold killGroup
        split
        · exact ⟨fun h => hclear (hst.ended h), fun h => hclear (hst.idle h), hst.early⟩
        · exact ⟨fun h => hclear (hst.ended h), fun h => hclear (hst.idle h), hst.early⟩
  | ending =>
      have hkept : Settled { st with ending := false } := ⟨hst.ended, hst.idle, hst.early⟩
      exact ((Works.refl { st with ending := false }).ends env .cancelled).settled hkept hnone
  | pause => exact (pause_works st).settled hst
  | resume =>
      by_cases hclosed : st.closeOutcome.isSome = true
      · exact (resume_goes env st).settled hst (hnone hclosed)
      · rw [Bool.not_eq_true, Option.isSome_eq_false_iff, Option.isNone_iff_eq_none] at hclosed
        have hresumed := resumed_works env st
        have hopen : ({ st.note .resumed with paused := false }.flushPendingEvents env).closeOutcome =
            none := by
          obtain ⟨effects, -, -, hst'⟩ := hresumed
          rw [hst']
          exact hclosed
        unfold handle resume
        dsimp only
        split
        · exact ⟨hst.ended, hst.idle, hst.early⟩
        · exact (hresumed.trans (resumeOutput_works hopen)).settled hst
  | cancel graceMs =>
      unfold handle cancel
      dsimp only
      split
      · exact hst
      · rename_i hfinished
        split
        · exact ⟨hst.ended, hst.idle, hst.early⟩
        · rename_i hpid
          have hchild : st.child ≠ none := fun h => hpid (by rw [h]; rfl)
          unfold killGroup setKillTimer
          split
          · exact ⟨fun h => absurd h hfinished, fun h => absurd h hchild, hst.early⟩
          · exact ⟨fun h => absurd h hfinished, fun h => absurd h hchild, hst.early⟩

/-! ### Signals -/

/-- What the log of a run grows by when it sends no signal. -/
def Unsignalled (st st' : ResumeRun) : Prop :=
  ∃ effects, st'.log = st.log ++ effects ∧ ∀ e ∈ effects, e.isSignal = false

theorem Unsignalled.refl (h : st'.log = st.log) : Unsignalled st st' :=
  ⟨[], by rw [h, List.append_nil], List.forall_mem_nil _⟩

theorem Goes.unsignalled (h : Goes env st st') : Unsignalled st st' := by
  obtain ⟨mid, ⟨effects, hplain, -, hmid⟩, hends⟩ := h
  have hlog : mid.log = st.log ++ effects := by rw [hmid]
  have heffects : ∀ e ∈ effects, e.isSignal = false := fun e he => (hplain e he).2
  rcases hends with rfl | ⟨outcome, rfl⟩
  · exact ⟨effects, hlog, heffects⟩
  · unfold finish
    split
    · exact ⟨effects, hlog, heffects⟩
    · refine ⟨effects ++ [.done outcome], ?_, ?_⟩
      · show mid.log ++ [.done outcome] = _
        rw [hlog, List.append_assoc]
      · exact List.forall_mem_append.mpr ⟨heffects, List.forall_mem_singleton.mpr rfl⟩

/-- **After its end a run sends no signal, if no timer is armed.** -/
theorem handle_unsignalled (env : RunnerEnv) (hfinished : st.finished = true)
    (harmed : st.timers.armed = []) (input : RunnerInput) : Unsignalled st (st.handle env input) := by
  cases input with
  | start spawned =>
      unfold handle start
      dsimp only
      rw [if_pos hfinished]
      exact .refl rfl
  | stdout chunk => exact ((stdoutData_works env st chunk).goes env).unsignalled
  | stderr chunk => exact ((stderrData_works env st chunk).goes env).unsignalled
  | childError error => exact ((emit_works env .engine st _).ends env _).unsignalled
  | close code signalled => exact (maybeFinishClosed_goes env _).unsignalled
  | timer n =>
      unfold handle fire
      dsimp only
      rw [Timers.find_of_armed_nil harmed]
      exact .refl rfl
  | ending => exact ((Works.refl { st with ending := false }).ends env .cancelled).unsignalled
  | pause => exact ((pause_works st).goes env).unsignalled
  | resume => exact (resume_goes env st).unsignalled
  | cancel graceMs =>
      unfold handle cancel
      dsimp only
      rw [if_pos hfinished]
      exact .refl rfl

/-- What is kept of a run in which no timer is lost. -/
structure Silenced (st : ResumeRun) : Prop where
  once : Once st
  settled : Settled st
  log : NoneAfterDone RunEffect.isSignal st.log

theorem step_silenced (hst : Silenced st) (input : RunnerInput)
    (hnone : st.fault = none → st.Admits input = true → NoneLost st input) :
    Silenced (step env st input) := by
  unfold step
  by_cases hcomes : (st.fault.isSome || !st.Admits input) = true
  · rw [if_pos hcomes]
    exact hst
  rw [if_neg hcomes]
  rw [Bool.or_eq_true, not_or, Bool.not_eq_true, Bool.not_eq_true, Option.isSome_eq_false_iff,
    Option.isNone_iff_eq_none, Bool.not_eq_false'] at hcomes
  obtain ⟨hfault, hadmits⟩ := hcomes
  have hlogged := handle_log env st input
  refine ⟨hlogged.once hst.once, handle_settled hst.settled hadmits (hnone hfault hadmits), ?_⟩
  by_cases hfinished : st.finished = true
  · obtain ⟨effects, hlog, hplain⟩ :=
      handle_unsignalled env hfinished (hst.settled.ended hfinished) input
    have hdone : ∃ e ∈ st.log, e.isDone = true := by
      have hcount := hst.once
      unfold Once at hcount
      rw [hfinished] at hcount
      exact List.countP_pos_iff.mp (by rw [hcount]; exact Nat.one_pos)
    rw [hlog, noneAfterDone_append_iff hst.log hdone]
    exact hplain
  · exact hlogged.unended hst.once (Bool.eq_false_iff.mpr hfinished) _

theorem run_silenced (env : RunnerEnv) (inputs : List RunnerInput)
    (h : Machine.Along (step env)
      (fun st input => st.fault = none → st.Admits input = true → NoneLost st input)
      (fresh env) inputs) : Silenced (run env inputs) := by
  refine Machine.run_invariant (I := Silenced) (step env)
    (fun st input hst hnone => step_silenced hst input hnone) ?_ h
  refine ⟨rfl, ⟨fun _ => rfl, fun _ => rfl, fun _ => rfl⟩, ?_⟩
  exact noneAfterDone_of_not_done (List.forall_mem_nil _) (Or.inl rfl)

end ResumeRun

/-! ### Both -/

/-- **A run sends no signal after its end, if each step that ends it finds no timer armed that the
run has lost the number of.** -/
theorem no_signal_after_done (env : RunEnv) (renv : RunnerEnv) (inputs : List RunInput)
    (rinputs : List RunnerInput) :
    (Machine.Along (ClaudeRun.step env)
        (fun st input => st.fault = none → st.Admits input = true → ClaudeRun.NoneLost st input)
        (ClaudeRun.fresh env) inputs →
      ∀ pre post, inputs = pre ++ post →
        NoneAfterDone RunEffect.isSignal (ClaudeRun.run env pre).log) ∧
    (Machine.Along (ResumeRun.step renv)
        (fun st input => st.fault = none → st.Admits input = true → ResumeRun.NoneLost st input)
        (ResumeRun.fresh renv) rinputs →
      ∀ pre post, rinputs = pre ++ post →
        NoneAfterDone RunEffect.isSignal (ResumeRun.run renv pre).log) := by
  constructor
  · intro h pre post hsplit
    rw [hsplit] at h
    exact (ClaudeRun.run_silenced env pre (Machine.along_append.mp h).1).log
  · intro h pre post hsplit
    rw [hsplit] at h
    exact (ResumeRun.run_silenced renv pre (Machine.along_append.mp h).1).log

/-! ### A cancel that comes again -/

def resumeEnv : RunnerEnv where
  engine := .claude
  number := plainEnv.number
  pauses := fun _ => false
  outputFile := none
  scratchGoes := true

/-- Some cancels, the child exits, and the first timer fires. -/
def cancelInputs (times : Nat) : List RunInput :=
  .start (.ok ()) (.child (some 7)) :: List.replicate times (.cancel (.ofInt 1000)) ++
    [.close none true, .timer 0]

def cancelTurnInputs (times : Nat) : List RunnerInput :=
  .start (.child (some 7)) :: List.replicate times (.cancel (.ofInt 1000)) ++
    [.close none true, .timer 0]

theorem lone_cancel_quiet :
    NoneAfterDone RunEffect.isSignal (ClaudeRun.run plainEnv (cancelInputs 1)).log ∧
      NoneAfterDone RunEffect.isSignal (ResumeRun.run resumeEnv (cancelTurnInputs 1)).log := by
  obtain ⟨hrun, hturn⟩ :=
    no_signal_after_done plainEnv resumeEnv (cancelInputs 1) (cancelTurnInputs 1)
  refine ⟨hrun ?_ (cancelInputs 1) [] (List.append_nil _).symm,
    hturn ?_ (cancelTurnInputs 1) [] (List.append_nil _).symm⟩
  · have hclose : ¬ Timers.Lost ⟨[(0, RunTimer.kill)], 1⟩ [none, some 0] := by decide
    have htimer : Timers.find ⟨[], 1⟩ 0 ≠ some RunTimer.timeout := by decide
    exact ⟨fun _ _ => trivial, fun _ _ => trivial, fun _ _ => hclose,
      fun _ _ h => absurd h htimer, trivial⟩
  · have hclose : ¬ Timers.Lost ⟨[(0, RunTimer.kill)], 1⟩ [some 0] := by decide
    exact ⟨fun _ _ => trivial, fun _ _ => trivial, fun _ _ => hclose, fun _ _ => trivial, trivial⟩

theorem second_cancel_kills :
    ¬ NoneAfterDone RunEffect.isSignal (ClaudeRun.run plainEnv (cancelInputs 2)).log ∧
      ¬ NoneAfterDone RunEffect.isSignal (ResumeRun.run resumeEnv (cancelTurnInputs 2)).log := by
  have hrun : (ClaudeRun.run plainEnv (cancelInputs 2)).log =
      [.signal .term, .signal .term, .done .cancelled, .signal .kill] := rfl
  have hturn : (ResumeRun.run resumeEnv (cancelTurnInputs 2)).log =
      [.signal .term, .signal .term, .done .cancelled, .signal .kill] := rfl
  constructor
  · intro h
    have hquiet := h [.signal .term, .signal .term] .cancelled [.signal .kill] hrun
    exact Bool.false_ne_true (hquiet _ List.mem_cons_self).symm
  · intro h
    have hquiet := h [.signal .term, .signal .term] .cancelled [.signal .kill] hturn
    exact Bool.false_ne_true (hquiet _ List.mem_cons_self).symm

end HuginAgent
