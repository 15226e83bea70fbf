/-
What a resumed session has delivered when it ends.

Until the close, what has been emitted are the events of the lines and errors that came
(`run_carries`).  A close in a pause is only noted, and the run then ends where it is resumed and
nothing is kept any more (`resume_closing`).  A close without a pause is the one place that loses
events: it reads what nothing has ended, and ends the run without looking whether the holder has
paused in the course.
-/
import HuginAgent.Sessions.Told

namespace HuginAgent

namespace ResumeRun

variable {env : RunnerEnv} {st st' : ResumeRun}

/-! ### A run that goes on -/

/-- The run is neither cancelled nor closed, and a run with a child has been started. -/
structure Running (st : ResumeRun) : Prop where
  unfinished : st.finished = false
  uncancelled : st.cancelled = false
  opened : st.closeOutcome = none
  ending : st.ending = false
  armed : st.timers.armed = []
  spawned : st.child.isSome = true → st.started = true ∧ st.fault ≠ some .start

/-- The run is not cancelled, and the child has not closed.  One that was spawned and gets no
signal reports no error. -/
def Calm : RunnerInput → Bool
  | .cancel _ | .close _ _ | .childError _ => false
  | _ => true

theorem Works.running (h : Works st st') (hst : Running st) (hfault : st.fault = none) :
    Running st' := by
  obtain ⟨effects, -, hsame, hst'⟩ := h
  have hraised : st'.fault ≠ some .start := by
    rcases hsame with hsame | hsame
    · rw [hsame, hfault]
      exact fun h => nomatch h
    · rw [hsame]
      exact fun h => nomatch h
  have hspawned : st'.child.isSome = true → st'.started = true ∧ st'.fault ≠ some .start := by
    intro hchild
    refine ⟨?_, hraised⟩
    rw [hst'] at hchild ⊢
    exact (hst.spawned hchild).1
  refine ⟨?_, ?_, ?_, ?_, ?_, hspawned⟩
  · rw [hst']
    exact hst.unfinished
  · rw [hst']
    exact hst.uncancelled
  · rw [hst']
    exact hst.opened
  · rw [hst']
    exact hst.ending
  · rw [hst']
    exact hst.armed

theorem handle_running (hst : Running st) {input : RunnerInput} (hcalm : Calm input = true)
    (hfault : st.fault = none) (hadmits : st.Admits input = true) :
    Running (st.handle env input) := by
  cases input with
  | start spawned =>
      unfold handle start
      dsimp only
      rw [if_neg (by rw [hst.unfinished]; exact Bool.false_ne_true),
        if_neg (by rw [hst.uncancelled]; exact Bool.false_ne_true)]
      cases spawned with
      | throws =>
          have hchild : st.child.isSome ≠ true := by
            intro hchild
            have hstarted := (hst.spawned hchild).1
            rw [Admits, hstarted] at hadmits
            exact Bool.false_ne_true hadmits
          exact ⟨hst.unfinished, hst.uncancelled, hst.opened, hst.ending, hst.armed,
            fun h => absurd h hchild⟩
      | child pid =>
          refine ⟨hst.unfinished, hst.uncancelled, hst.opened, hst.ending, hst.armed,
            fun _ => ⟨rfl, ?_⟩⟩
          rw [hfault]
          intro h
          cases h
  | stdout chunk => exact (stdoutData_works env st chunk).running hst hfault
  | stderr chunk => exact (stderrData_works env st chunk).running hst hfault
  | childError error => cases hcalm
  | close code signalled => cases hcalm
  | timer n =>
      unfold handle fire
      dsimp only
      rw [Timers.find_of_armed_nil hst.armed]
      exact hst
  | ending =>
      rw [Admits, hst.ending] at hadmits
      cases hadmits
  | pause => exact (pause_works st).running hst hfault
  | resume =>
      have hresumed := resumed_works env st
      have hopen := (hresumed.running hst hfault).opened
      unfold handle resume
      dsimp only
      split
      · exact ⟨hst.unfinished, hst.uncancelled, hst.opened, hst.ending, hst.armed, hst.spawned⟩
      · exact (hresumed.trans (resumeOutput_works hopen)).running hst hfault
  | cancel graceMs => cases hcalm

theorem run_running (env : RunnerEnv) (inputs : List RunnerInput)
    (hcalm : ∀ input ∈ inputs, Calm input = true) : Running (run env inputs) := by
  induction inputs using List.reverseRecOn with
  | nil => exact ⟨rfl, rfl, rfl, rfl, rfl, fun h => nomatch h⟩
  | append_singleton inputs input ih =>
      obtain ⟨hbefore, hlast⟩ := List.forall_mem_append.mp hcalm
      have hrun : run env (inputs ++ [input]) = step env (run env inputs) input :=
        Machine.run_append (step env) (fresh env) inputs [input]
      have hst := ih hbefore
      rw [hrun]
      unfold step
      split
      · exact hst
      · rename_i hcomes
        rw [Bool.or_eq_true, not_or, Bool.not_eq_true, Bool.not_eq_true, Option.isSome_eq_false_iff,
          Option.isNone_iff_eq_none, Bool.not_eq_false'] at hcomes
        exact handle_running hst (hlast input (List.mem_singleton.mpr rfl)) hcomes.1 hcomes.2

/-! ### What is received and what is emitted -/

/-- The chunks of output and of errors that have come, with the one that comes. -/
def received (st : ResumeRun) (input : RunnerInput)
    (got : List (List UInt8) × List (List UInt8)) : List (List UInt8) × List (List UInt8) :=
  if st.fault.isSome || !st.Admits input then got
  else
    match input with
    | .stdout chunk => (got.1 ++ [chunk], got.2)
    | .stderr chunk => (got.1, got.2 ++ [chunk])
    | _ => got

def receivedChunks (env : RunnerEnv) (inputs : List RunnerInput) :
    List (List UInt8) × List (List UInt8) :=
  Machine.track (step env) received (fresh env) ([], []) inputs

def errorEvents (chunks : List (List UInt8)) : List JsObject :=
  chunks.map fun chunk => stderrChunk (utf8Decode chunk)

/-- What has been emitted are the events of the lines that were read and of the errors; the other
lines wait in the buffer, and they do so only in a pause. -/
structure Carries (env : RunnerEnv) (text : JsString) (errors : List (List UInt8)) (st : ResumeRun) :
    Prop extends Orderly st where
  output : ∃ taken, ofSource .stdout st.heard = taken.flatMap env.lineEvents ∧
    (splitLines newline text).1 = taken ++ (splitLines newline st.stdoutBuf).1
  rest : (splitLines newline text).2 = (splitLines newline st.stdoutBuf).2
  drained : st.paused = false → (splitLines newline st.stdoutBuf).1 = []
  complaints : ofSource .stderr st.heard = errorEvents errors
  sound : st.fault ≠ some .callback

variable {text : JsString} {errors : List (List UInt8)}

theorem Carries.drain (horderly : Orderly st) (hfault : st.fault = none)
    (houtput : ∃ taken, ofSource .stdout st.heard = taken.flatMap env.lineEvents ∧
      (splitLines newline text).1 = taken ++ (splitLines newline st.stdoutBuf).1)
    (hrest : (splitLines newline text).2 = (splitLines newline st.stdoutBuf).2)
    (hcomplaints : ofSource .stderr st.heard = errorEvents errors)
    (hreadable : env.Readable (splitLines newline text).1) :
    Carries env text errors (st.drain env false) := by
  obtain ⟨taken, htaken, hlines⟩ := houtput
  have hwaiting : env.Readable (splitLines newline st.stdoutBuf).1 := by
    intro line hline
    refine hreadable line ?_
    rw [hlines]
    exact List.mem_append_right _ hline
  obtain ⟨horderly', hheard, hsound, hbuf⟩ := drain_spec horderly hfault hwaiting
  have hcut : splitLines newline (st.drain env false).stdoutBuf =
      ([], (splitLines newline st.stdoutBuf).2) := by
    rw [hbuf]
    exact splitLines_of_notMem (notMem_splitLines st.stdoutBuf).2
  refine ⟨horderly', ⟨taken ++ (splitLines newline st.stdoutBuf).1, ?_, ?_⟩, ?_, ?_, ?_, ?_⟩
  · rw [hheard, ofSource_append, ofSource_tagged, htaken, List.flatMap_append]
  · rw [hcut, hlines, List.append_nil]
  · rw [hcut, hrest]
  · intro _
    rw [hcut]
  · rw [hheard, ofSource_append, ofSource_other (by decide), List.append_nil]
    exact hcomplaints
  · rw [hsound]
    exact fun h => nomatch h

/-- The pause is over. -/
theorem Paced.resumed (h : Paced st) :
    Paced { st.note .resumed with paused := false } ∧
      toldEvents (st.note .resumed).log = toldEvents st.log := by
  refine ⟨⟨h.unfinished, ?_, ?_⟩, ?_⟩
  · show pausedAfter (st.log ++ [.resumed]) false = false
    rw [ClaudeRun.pausedAfter_append]
    rfl
  · show HonoursPauses false (st.log ++ [.resumed])
    rw [honoursPauses_append]
    exact ⟨h.honours, trivial⟩
  · show toldEvents (st.log ++ [.resumed]) = _
    rw [toldEvents_append]
    exact List.append_nil _

theorem flushed_spec (env : RunnerEnv) (h : Orderly st) :
    Orderly ({ st.note .resumed with paused := false }.flushPendingEvents env) ∧
      ({ st.note .resumed with paused := false }.flushPendingEvents env).heard = st.heard ∧
      ({ st.note .resumed with paused := false }.flushPendingEvents env).fault = st.fault ∧
      ({ st.note .resumed with paused := false }.flushPendingEvents env).stdoutBuf =
        st.stdoutBuf := by
  obtain ⟨hpaced, htold⟩ := h.toPaced.resumed
  obtain ⟨horderly, hheard⟩ := flushEvents_spec env st.pendingEvents hpaced
  obtain ⟨hfault, hbuf⟩ := flushEvents_frame env st.pendingEvents
    { st.note .resumed with paused := false }
  refine ⟨horderly, hheard.trans ?_, hfault, hbuf⟩
  show toldEvents (st.note .resumed).log ++ _ = _
  rw [htold]
  rfl

/-- Before the close a run that is resumed reads what waits. -/
theorem resume_carries (hrunning : Running st) (hfault : st.fault = none)
    (h : Carries env text errors st) (hreadable : env.Readable (splitLines newline text).1) :
    Carries env text errors (st.resume env) := by
  unfold resume
  rw [hrunning.unfinished, Bool.false_or]
  by_cases hpaused : st.paused = true
  · obtain ⟨horderly, hheard, hsame, hbuf⟩ := flushed_spec env h.toOrderly
    have hopen := ((resumed_works env st).running hrunning hfault).opened
    rw [if_neg (by rw [hpaused]; exact Bool.false_ne_true)]
    generalize { st.note .resumed with paused := false }.flushPendingEvents env = flushed at *
    have houtput := h.output
    have hrest := h.rest
    have hcomplaints := h.complaints
    rw [← hheard, ← hbuf] at houtput
    rw [← hbuf] at hrest
    rw [← hheard] at hcomplaints
    unfold resumeOutput
    dsimp only
    by_cases hagain : flushed.paused = true
    · rw [if_pos hagain]
      refine ⟨horderly, houtput, hrest, fun hrun => ?_, hcomplaints, ?_⟩
      · exact absurd (hrun.symm.trans hagain) Bool.false_ne_true
      · rw [hsame]
        exact h.sound
    · have hcarries := Carries.drain horderly (hsame.trans hfault) houtput hrest hcomplaints hreadable
      rw [if_neg hagain, hopen, Option.isSome_none]
      split
      · exact hcarries
      · have hstill : (flushed.drain env false).closeOutcome = none := by
          obtain ⟨effects, -, -, hst'⟩ := drain_works env false flushed
          rw [hst']
          exact hopen
        rw [maybeFinishClosed, hstill]
        exact hcarries
  · have hrun : st.paused = false := Bool.eq_false_iff.mpr hpaused
    obtain ⟨hpaced, htold⟩ := h.toPaced.resumed
    have hsame : st.note .resumed = { st.note .resumed with paused := false } := by
      rw [← hrun]
      rfl
    have hheard : (st.note .resumed).heard = st.heard := by
      unfold heard
      rw [htold]
      rfl
    rw [if_pos (by rw [hrun]; rfl)]
    refine ⟨⟨by rw [hsame]; exact hpaced, h.waiting⟩, ?_, h.rest, h.drained, ?_, h.sound⟩
    · rw [hheard]
      exact h.output
    · rw [hheard]
      exact h.complaints

/-- A chunk of output is put behind what waits, and read if the run is not paused. -/
theorem stdoutData_carries (hfault : st.fault = none) (h : Carries env text errors st)
    (chunk : List UInt8)
    (hreadable : env.Readable (splitLines newline (text ++ utf8Decode chunk)).1) :
    Carries env (text ++ utf8Decode chunk) errors (st.stdoutData env chunk) := by
  obtain ⟨taken, htaken, hlines⟩ := h.output
  obtain ⟨hmore, hleft⟩ := splitLines_go_on hlines h.rest (utf8Decode chunk)
  have horderly : Orderly { st with stdoutBuf := st.stdoutBuf ++ utf8Decode chunk } :=
    ⟨⟨h.unfinished, h.logged, h.honours⟩, h.waiting⟩
  unfold stdoutData
  by_cases hpaused : st.paused = true
  · rw [if_pos hpaused]
    refine ⟨horderly, ⟨taken, htaken, hmore⟩, hleft, fun hrun => ?_, h.complaints, h.sound⟩
    exact absurd (hrun.symm.trans hpaused) Bool.false_ne_true
  · rw [if_neg hpaused]
    exact Carries.drain horderly hfault ⟨taken, htaken, hmore⟩ hleft h.complaints hreadable

theorem stderrData_carries (h : Carries env text errors st) (chunk : List UInt8) :
    Carries env text (errors ++ [chunk]) (st.stderrData env chunk) := by
  have hemit : ∀ base : ResumeRun, SameOutput st base →
      Carries env text (errors ++ [chunk]) (base.emit env .stderr (stderrChunk (utf8Decode chunk))) := by
    intro base hbase
    have horderly := hbase.orderly h.toOrderly
    have hheard : base.heard = st.heard := by
      unfold heard
      rw [hbase.log, hbase.pendingEvents]
    obtain ⟨horderly', hgrown⟩ := emit_spec env .stderr (stderrChunk (utf8Decode chunk)) horderly
    obtain ⟨hfault, hbuf⟩ := emit_frame env .stderr base (stderrChunk (utf8Decode chunk))
    have hstdout : ofSource .stdout [(EventSource.stderr, stderrChunk (utf8Decode chunk))] = [] :=
      ofSource_other (by decide) [stderrChunk (utf8Decode chunk)]
    have hstderr : ofSource .stderr [(EventSource.stderr, stderrChunk (utf8Decode chunk))] =
        [stderrChunk (utf8Decode chunk)] := ofSource_tagged .stderr [stderrChunk (utf8Decode chunk)]
    refine ⟨horderly', ?_, ?_, ?_, ?_, ?_⟩
    · rw [hgrown, ofSource_append, hstdout, List.append_nil, hheard, hbuf, hbase.stdoutBuf]
      exact h.output
    · rw [hbuf, hbase.stdoutBuf]
      exact h.rest
    · intro hrun
      rw [hbuf, hbase.stdoutBuf]
      refine h.drained ?_
      by_contra hpaused
      rw [Bool.not_eq_false] at hpaused
      have hstays : (base.emit env .stderr (stderrChunk (utf8Decode chunk))).paused = true := by
        unfold emit
        rw [if_pos (hbase.paused.trans hpaused)]
        exact hbase.paused.trans hpaused
      exact Bool.false_ne_true (hrun.symm.trans hstays)
    · rw [hgrown, ofSource_append, hstderr, hheard, h.complaints, errorEvents, errorEvents,
        List.map_append]
      rfl
    · rw [hfault, hbase.fault]
      exact h.sound
  exact hemit _ ⟨rfl, rfl, rfl, rfl, rfl, rfl⟩

theorem handle_carries (hrunning : Running st) (hfault : st.fault = none) {input : RunnerInput}
    (hcalm : Calm input = true) (hadmits : st.Admits input = true)
    (hinput : ∀ chunk, input ≠ .stdout chunk ∧ input ≠ .stderr chunk)
    (h : Carries env text errors st) (hreadable : env.Readable (splitLines newline text).1) :
    Carries env text errors (st.handle env input) := by
  cases input with
  | start spawned =>
      unfold handle start
      dsimp only
      rw [if_neg (by rw [hrunning.unfinished]; exact Bool.false_ne_true),
        if_neg (by rw [hrunning.uncancelled]; exact Bool.false_ne_true)]
      cases spawned with
      | throws =>
          exact ⟨⟨⟨h.unfinished, h.logged, h.honours⟩, h.waiting⟩, h.output, h.rest, h.drained,
            h.complaints, by intro h; cases h⟩
      | child pid =>
          exact ⟨⟨⟨h.unfinished, h.logged, h.honours⟩, h.waiting⟩, h.output, h.rest, h.drained,
            h.complaints, h.sound⟩
  | stdout chunk => exact absurd rfl (hinput chunk).1
  | stderr chunk => exact absurd rfl (hinput chunk).2
  | childError error => cases hcalm
  | close code signalled => cases hcalm
  | timer n =>
      unfold handle fire
      dsimp only
      rw [Timers.find_of_armed_nil hrunning.armed]
      exact h
  | ending =>
      rw [Admits, hrunning.ending] at hadmits
      cases hadmits
  | pause =>
      obtain ⟨hpaced, hnow, hkept, htold, -⟩ := h.toPaced.pause
      have hheard : st.pause.heard = st.heard := by
        unfold heard
        rw [htold, hkept]
      have hframe : st.pause.fault = st.fault ∧ st.pause.stdoutBuf = st.stdoutBuf := by
        unfold pause
        split
        · exact ⟨rfl, rfl⟩
        · exact ⟨rfl, rfl⟩
      have hnot : st.pause.paused ≠ false := by
        rw [hnow]
        intro h
        cases h
      show Carries env text errors st.pause
      refine ⟨⟨hpaced, fun hrun => absurd hrun hnot⟩, ?_, ?_, fun hrun => absurd hrun hnot, ?_, ?_⟩
      · rw [hheard, hframe.2]
        exact h.output
      · rw [hframe.2]
        exact h.rest
      · rw [hheard]
        exact h.complaints
      · rw [hframe.1]
        exact h.sound
  | resume => exact resume_carries hrunning hfault h hreadable
  | cancel graceMs => cases hcalm

theorem receivedChunks_snoc (env : RunnerEnv) (inputs : List RunnerInput) (input : RunnerInput) :
    receivedChunks env (inputs ++ [input]) =
      received (run env inputs) input (receivedChunks env inputs) :=
  Machine.track_append (step env) received (fresh env) ([], []) inputs input

/-- **What a run has emitted before the close are the events of the lines and errors that came.** -/
theorem run_carries (env : RunnerEnv) (inputs : List RunnerInput)
    (hcalm : ∀ input ∈ inputs, Calm input = true)
    (hreadable : env.Readable (splitLines newline (decodeChunks (receivedChunks env inputs).1)).1) :
    Carries env (decodeChunks (receivedChunks env inputs).1) (receivedChunks env inputs).2
      (run env inputs) := by
  induction inputs using List.reverseRecOn with
  | nil =>
      exact ⟨⟨⟨rfl, rfl, trivial⟩, fun _ => rfl⟩, ⟨[], rfl, rfl⟩, rfl, fun _ => rfl, rfl,
        fun h => nomatch h⟩
  | append_singleton inputs input ih =>
      obtain ⟨hbefore, hlast⟩ := List.forall_mem_append.mp hcalm
      have hinput := hlast input (List.mem_singleton.mpr rfl)
      have hrunning := run_running env inputs hbefore
      have hrun : run env (inputs ++ [input]) = step env (run env inputs) input :=
        Machine.run_append (step env) (fresh env) inputs [input]
      rw [receivedChunks_snoc] at hreadable ⊢
      rw [hrun]
      have ih := ih hbefore
      generalize receivedChunks env inputs = got at ih hreadable ⊢
      generalize run env inputs = st at ih hrunning hreadable ⊢
      unfold received at hreadable ⊢
      unfold step
      by_cases hcomes : (st.fault.isSome || !st.Admits input) = true
      · rw [if_pos hcomes] at hreadable ⊢
        rw [if_pos hcomes]
        exact ih hreadable
      rw [if_neg hcomes] at hreadable ⊢
      rw [if_neg hcomes]
      rw [Bool.or_eq_true, not_or, Bool.not_eq_true, Bool.not_eq_true, Option.isSome_eq_false_iff,
        Option.isNone_iff_eq_none, Bool.not_eq_false'] at hcomes
      obtain ⟨hfault, hadmits⟩ := hcomes
      split at hreadable
      · rename_i chunk
        rw [ClaudeRun.decodeChunks_snoc] at hreadable ⊢
        have hbase : env.Readable (splitLines newline (decodeChunks got.1)).1 := by
          intro line hline
          refine hreadable line ?_
          rw [splitLines_add]
          exact List.mem_append_left _ hline
        exact stdoutData_carries hfault (ih hbase) chunk hreadable
      · rename_i chunk
        exact stderrData_carries (ih hreadable) chunk
      · rename_i hstdout hstderr
        exact handle_carries hrunning hfault hinput hadmits
          (fun chunk => ⟨hstdout chunk, hstderr chunk⟩) (ih hreadable) hreadable

/-! ### The close -/

/-- What there is before the end: all events in order, and none in a pause. -/
structure Delivered (events : List JsObject) (errors : List (List UInt8)) (log : List RunEffect) :
    Prop where
  output : stdoutEvents (ClaudeRun.beforeDone log) = events
  complaints : ofSource .stderr (toldEvents (ClaudeRun.beforeDone log)) = errorEvents errors
  pauses : HonoursPauses false (ClaudeRun.beforeDone log)

/-- The condition on the state that the close comes in: if the run is not paused, the holder pauses
at no event but the last of what nothing has ended. -/
def TailTold (env : RunnerEnv) (st : ResumeRun) : Prop :=
  st.paused = false → PausesLast env st (env.lineEvents (splitLines newline st.stdoutBuf).2)

/-- The close has come in a pause, and the run waits to be resumed. -/
structure Closing (env : RunnerEnv) (events : List JsObject) (errors : List (List UInt8))
    (st : ResumeRun) : Prop extends Orderly st where
  paused : st.paused = true
  closed : st.closeOutcome.isSome = true
  uncancelled : st.cancelled = false
  started : st.started = true
  ending : st.ending = false
  armed : st.timers.armed = []
  sound : st.fault = none
  once : ∀ e ∈ st.log, e.isDone = false
  readable : env.Readable (splitAll newline st.stdoutBuf)
  output : ofSource .stdout st.heard ++ (splitAll newline st.stdoutBuf).flatMap env.lineEvents = events
  complaints : ofSource .stderr st.heard = errorEvents errors

variable {events : List JsObject}

theorem Works.plain (h : Works st st') (hplain : ∀ e ∈ st.log, e.isDone = false) :
    ∀ e ∈ st'.log, e.isDone = false := by
  obtain ⟨effects, heffects, -, hst'⟩ := h
  rw [hst']
  exact List.forall_mem_append.mpr ⟨hplain, fun e he => (heffects e he).1⟩

/-- The end tells what has been told, and what is kept is lost. -/
theorem finish_delivered (env : RunnerEnv) (horderly : Orderly st) (hplain : ∀ e ∈ st.log, e.isDone = false)
    {kept : List JsObject} (hkept : st.pendingEvents = tagged .stdout kept)
    (houtput : ofSource .stdout st.heard = events)
    (hcomplaints : ofSource .stderr st.heard = errorEvents errors) (outcome : EngineOutcome) :
    (st.finish env outcome).finished = true ∧
      (∃ e ∈ (st.finish env outcome).log, e.isDone = true) ∧
      (Delivered events errors (st.finish env outcome).log ↔ kept = []) := by
  unfold finish
  rw [if_neg (by rw [horderly.unfinished]; exact Bool.false_ne_true)]
  have hbefore : ClaudeRun.beforeDone (st.log ++ [.done outcome]) = st.log :=
    ClaudeRun.beforeDone_of_plain hplain outcome
  have htold : ofSource .stdout (toldEvents st.log) ++ kept = events := by
    unfold heard at houtput
    rw [hkept, ofSource_append, ofSource_tagged] at houtput
    exact houtput
  have hclaimed : ofSource .stderr (toldEvents st.log) = errorEvents errors := by
    unfold heard at hcomplaints
    rw [hkept, ofSource_append, ofSource_other (by decide), List.append_nil] at hcomplaints
    exact hcomplaints
  refine ⟨rfl, ⟨_, List.mem_append_right _ (List.mem_singleton.mpr rfl), rfl⟩, ?_, ?_⟩
  · intro h
    have hall : stdoutEvents (ClaudeRun.beforeDone (st.log ++ [.done outcome])) = events := h.output
    rw [hbefore, stdoutEvents_eq, ← htold] at hall
    exact List.append_right_eq_self.mp hall.symm
  · intro hnone
    rw [hnone, List.append_nil] at htold
    refine ⟨?_, ?_, ?_⟩
    · show stdoutEvents (ClaudeRun.beforeDone (st.log ++ [.done outcome])) = events
      rw [hbefore, stdoutEvents_eq]
      exact htold
    · show ofSource .stderr (toldEvents (ClaudeRun.beforeDone (st.log ++ [.done outcome]))) = _
      rw [hbefore]
      exact hclaimed
    · show HonoursPauses false (ClaudeRun.beforeDone (st.log ++ [.done outcome]))
      rw [hbefore]
      exact horderly.honours

theorem Dry.nothing (h : Dry st) : (splitAll newline st.stdoutBuf).flatMap env.lineEvents = [] ∧
    env.Readable (splitAll newline st.stdoutBuf) := by
  rw [splitAll_of_notMem h.1, List.flatMap_singleton, RunnerEnv.lineEvents, env.read_blank h.2]
  refine ⟨rfl, List.forall_mem_singleton.mpr ?_⟩
  rw [env.read_blank h.2]
  rfl

/-- The same state after something is told and read. -/
theorem Closing.moved (h : Closing env events errors st) (hworks : Works st st')
    (horderly : Orderly st') (hpaused : st'.paused = true) (hsound : st'.fault = none)
    (hreadable : env.Readable (splitAll newline st'.stdoutBuf))
    (houtput : ofSource .stdout st'.heard ++
      (splitAll newline st'.stdoutBuf).flatMap env.lineEvents = events)
    (hcomplaints : ofSource .stderr st'.heard = errorEvents errors) :
    Closing env events errors st' := by
  have honce := hworks.plain h.once
  obtain ⟨effects, -, -, hst'⟩ := hworks
  refine ⟨horderly, hpaused, ?_, ?_, ?_, ?_, ?_, hsound, honce, hreadable, houtput, hcomplaints⟩
  · rw [hst']
    exact h.closed
  · rw [hst']
    exact h.uncancelled
  · rw [hst']
    exact h.started
  · rw [hst']
    exact h.ending
  · rw [hst']
    exact h.armed

/-- **A run that is resumed after the close waits again, or has told all.** -/
theorem resume_closing (h : Closing env events errors st) :
    Closing env events errors (st.resume env) ∨
      (st.resume env).finished = true ∧ (∃ e ∈ (st.resume env).log, e.isDone = true) ∧
        Delivered events errors (st.resume env).log := by
  obtain ⟨horderly, hheard, hsame, hbuf⟩ := flushed_spec env h.toOrderly
  have hworks := resumed_works env st
  have hresume : st.resume env =
      ({ st.note .resumed with paused := false }.flushPendingEvents env).resumeOutput env := by
    unfold resume
    rw [if_neg]
    rw [h.unfinished, h.paused]
    exact Bool.false_ne_true
  rw [hresume]
  generalize { st.note .resumed with paused := false }.flushPendingEvents env = flushed at *
  have hsound := hsame.trans h.sound
  have hreadable := h.readable
  have houtput := h.output
  have hcomplaints := h.complaints
  rw [← hbuf] at hreadable
  rw [← hheard, ← hbuf] at houtput
  rw [← hheard] at hcomplaints
  unfold resumeOutput
  dsimp only
  by_cases hagain : flushed.paused = true
  · rw [if_pos hagain]
    exact Or.inl (h.moved hworks horderly hagain hsound hreadable houtput hcomplaints)
  rw [if_neg hagain]
  have hclosed : flushed.closeOutcome.isSome = true ∧ flushed.cancelled = false := by
    obtain ⟨effects, -, -, hst'⟩ := hworks
    rw [hst']
    exact ⟨h.closed, h.uncancelled⟩
  rw [hclosed.1]
  obtain ⟨hread, htold, hfault, hdry, -⟩ := drain_flush horderly hsound hreadable
  have hdrained := drain_works env true flushed
  have hstill : (flushed.drain env true).closeOutcome.isSome = true ∧
      (flushed.drain env true).cancelled = false := by
    obtain ⟨effects, -, -, hst'⟩ := hdrained
    rw [hst']
    exact hclosed
  have hall : ofSource .stdout (flushed.drain env true).heard = events := by
    rw [htold, ofSource_append, ofSource_tagged]
    exact houtput
  have herrors : ofSource .stderr (flushed.drain env true).heard = errorEvents errors := by
    rw [htold, ofSource_append, ofSource_other (by decide), List.append_nil]
    exact hcomplaints
  generalize flushed.drain env true = drained at *
  rw [hfault, Option.isSome_none, Bool.false_or]
  by_cases hlast : drained.paused = true
  · rw [if_pos hlast]
    refine Or.inl (h.moved (hworks.trans hdrained) hread hlast hfault hdry.nothing.2 ?_ herrors)
    rw [hdry.nothing.1, List.append_nil]
    exact hall
  · rw [if_neg hlast]
    obtain ⟨outcome, houtcome⟩ := Option.isSome_iff_exists.mp hstill.1
    have hends : drained.maybeFinishClosed env = drained.finish env outcome := by
      unfold maybeFinishClosed
      rw [houtcome]
      dsimp only
      rw [hstill.2, if_neg Bool.false_ne_true, if_neg hlast, drain_dry hdry, hfault,
        Option.isSome_none, if_neg Bool.false_ne_true]
    have hkept : drained.pendingEvents = tagged .stdout [] :=
      hread.waiting (Bool.eq_false_iff.mpr hlast)
    obtain ⟨hfinished, hdone, hdelivered⟩ := finish_delivered env hread
      ((hworks.trans hdrained).plain h.once) hkept hall herrors outcome
    rw [hends]
    exact Or.inr ⟨hfinished, hdone, hdelivered.mpr rfl⟩

/-! ### After the close -/

/-- What may come behind the close: no cancel, and nothing more of the child. -/
def Later : RunnerInput → Bool
  | .stdout _ | .stderr _ | .childError _ | .close _ _ | .cancel _ => false
  | _ => true

/-- The run waits to be resumed, and then tells all, or it has ended and has told all just when
`told` says so. -/
def Settles (env : RunnerEnv) (events : List JsObject) (errors : List (List UInt8)) (told : Prop)
    (st : ResumeRun) : Prop :=
  Closing env events errors st ∧ told ∨
    st.finished = true ∧ (∃ e ∈ st.log, e.isDone = true) ∧ (Delivered events errors st.log ↔ told)

variable {told : Prop}

theorem beforeDone_append {log : List RunEffect} (hdone : ∃ e ∈ log, e.isDone = true)
    (more : List RunEffect) : ClaudeRun.beforeDone (log ++ more) = ClaudeRun.beforeDone log := by
  induction log with
  | nil =>
      obtain ⟨e, he, -⟩ := hdone
      exact absurd he List.not_mem_nil
  | cons e rest ih =>
      unfold ClaudeRun.beforeDone at *
      rw [List.cons_append, List.takeWhile_cons, List.takeWhile_cons]
      by_cases hlast : e.isDone = true
      · rw [hlast]
        rfl
      · have hrest : ∃ e ∈ rest, e.isDone = true := by
          obtain ⟨d, hd, hisDone⟩ := hdone
          rcases List.mem_cons.mp hd with rfl | hd
          · exact absurd hisDone hlast
          · exact ⟨d, hd, hisDone⟩
        rw [Bool.eq_false_iff.mpr hlast, ih hrest]

/-- After its end a run only notes what it is told. -/
theorem handle_finished (env : RunnerEnv) (hfinished : st.finished = true) {input : RunnerInput}
    (hlater : Later input = true) :
    (st.handle env input).finished = true ∧ ∃ more, (st.handle env input).log = st.log ++ more := by
  have hsame : ∀ {st' : ResumeRun}, st'.log = st.log → ∃ more, st'.log = st.log ++ more := by
    intro st' hlog
    exact ⟨[], by rw [hlog, List.append_nil]⟩
  cases input with
  | start spawned =>
      unfold handle start
      dsimp only
      rw [if_pos hfinished]
      exact ⟨hfinished, hsame rfl⟩
  | stdout chunk => exact nomatch hlater
  | stderr chunk => exact nomatch hlater
  | childError error => exact nomatch hlater
  | close code signalled => exact nomatch hlater
  | timer n =>
      unfold handle fire killGroup
      dsimp only
      split
      · exact ⟨hfinished, hsame rfl⟩
      · split
        · exact ⟨hfinished, [.signal .kill], rfl⟩
        · exact ⟨hfinished, hsame rfl⟩
  | ending =>
      unfold handle endCancelled finish
      dsimp only
      rw [if_pos hfinished]
      exact ⟨hfinished, hsame rfl⟩
  | pause =>
      unfold handle pause
      dsimp only
      rw [if_pos (by rw [hfinished]; rfl)]
      exact ⟨hfinished, [.paused], rfl⟩
  | resume =>
      unfold handle resume
      dsimp only
      rw [if_pos (by rw [hfinished]; rfl)]
      exact ⟨hfinished, [.resumed], rfl⟩
  | cancel graceMs => exact nomatch hlater

theorem step_settles (h : Settles env events errors told st) {input : RunnerInput}
    (hlater : Later input = true) : Settles env events errors told (step env st input) := by
  unfold step
  by_cases hcomes : (st.fault.isSome || !st.Admits input) = true
  · rw [if_pos hcomes]
    exact h
  rw [if_neg hcomes]
  rcases h with ⟨hclosing, htold⟩ | ⟨hfinished, hdone, hdelivered⟩
  · rw [Bool.or_eq_true, not_or, Bool.not_eq_true, Bool.not_eq_true, Bool.not_eq_false'] at hcomes
    have hadmits := hcomes.2
    cases input with
    | start spawned =>
        rw [Admits, hclosing.started] at hadmits
        cases hadmits
    | stdout chunk => cases hlater
    | stderr chunk => cases hlater
    | childError error => cases hlater
    | close code signalled => cases hlater
    | timer n =>
        unfold handle fire
        dsimp only
        rw [Timers.find_of_armed_nil hclosing.armed]
        exact Or.inl ⟨hclosing, htold⟩
    | ending =>
        rw [Admits, hclosing.ending] at hadmits
        cases hadmits
    | pause =>
        have hnoted : st.pause = st.note .paused := by
          unfold pause
          rw [if_pos (by rw [hclosing.paused, Bool.or_true])]
        obtain ⟨hpaced, hnow, hkept, hsame, -⟩ := hclosing.toPaced.pause
        have hheard : st.pause.heard = st.heard := by
          unfold heard
          rw [hsame, hkept]
        have hbuf : st.pause.stdoutBuf = st.stdoutBuf := by rw [hnoted]; rfl
        show Settles env events errors told st.pause
        refine Or.inl ⟨hclosing.moved (pause_works st) ⟨hpaced, fun hrun => ?_⟩ hnow ?_ ?_ ?_ ?_, htold⟩
        · exact absurd (hrun.symm.trans hnow) Bool.false_ne_true
        · rw [hnoted]
          exact hclosing.sound
        · rw [hbuf]
          exact hclosing.readable
        · rw [hheard, hbuf]
          exact hclosing.output
        · rw [hheard]
          exact hclosing.complaints
    | resume =>
        rcases resume_closing hclosing with hstill | ⟨hfinished, hdone, hdelivered⟩
        · exact Or.inl ⟨hstill, htold⟩
        · exact Or.inr ⟨hfinished, hdone, iff_of_true hdelivered htold⟩
    | cancel graceMs => cases hlater
  · obtain ⟨hstill, more, hlog⟩ := handle_finished env hfinished hlater
    refine Or.inr ⟨hstill, ?_, ?_⟩
    · obtain ⟨e, he, hisDone⟩ := hdone
      rw [hlog]
      exact ⟨e, List.mem_append_left _ he, hisDone⟩
    · have hbefore := beforeDone_append hdone more
      rw [← hdelivered, hlog]
      constructor
      · intro hall
        refine ⟨?_, ?_, ?_⟩
        · rw [← hbefore]
          exact hall.output
        · rw [← hbefore]
          exact hall.complaints
        · rw [← hbefore]
          exact hall.pauses
      · intro hall
        refine ⟨?_, ?_, ?_⟩
        · rw [hbefore]
          exact hall.output
        · rw [hbefore]
          exact hall.complaints
        · rw [hbefore]
          exact hall.pauses

/-- **The close ends the run or waits for the end of the pause.** -/
theorem close_settles (hrunning : Running st) (honce : Once st) (h : Carries env text errors st)
    (hchild : st.child.isSome = true) (hstream : env.streamEvents text = some events)
    (code : Option JsNumber) (signalled : Bool) :
    Settles env events errors (TailTold env st) (step env st (.close code signalled)) := by
  obtain ⟨hreadable, rfl⟩ := RunnerEnv.streamEvents_some hstream
  obtain ⟨taken, htaken, hlines⟩ := h.output
  have hsplit : splitAll newline text = taken ++ splitAll newline st.stdoutBuf := by
    rw [splitAll, splitAll, hlines, h.rest, List.append_assoc]
  have hwaiting : env.Readable (splitAll newline st.stdoutBuf) := by
    intro line hline
    refine hreadable line ?_
    rw [hsplit]
    exact List.mem_append_right _ hline
  have hall : ofSource .stdout st.heard ++ (splitAll newline st.stdoutBuf).flatMap env.lineEvents =
      (splitAll newline text).flatMap env.lineEvents := by
    rw [hsplit, List.flatMap_append, htaken]
  have hfault : st.fault = none := by
    cases hf : st.fault with
    | none => rfl
    | some fault =>
        cases fault with
        | start => exact absurd hf (hrunning.spawned hchild).2
        | callback => exact absurd hf h.sound
  have hcomes : ¬ (st.fault.isSome || !st.Admits (.close code signalled)) = true := by
    rw [hfault, Admits, hchild]
    exact Bool.false_ne_true
  have hplain := honce.plain hrunning.unfinished
  have horderly : Orderly { st with
      closeOutcome := some (ClaudeRun.closeOutcome st.cancelled signalled code) } :=
    ⟨⟨h.unfinished, h.logged, h.honours⟩, h.waiting⟩
  rw [step, if_neg hcomes]
  show Settles env _ errors _ (ResumeRun.maybeFinishClosed env
    { st with closeOutcome := some (ClaudeRun.closeOutcome st.cancelled signalled code) })
  unfold maybeFinishClosed
  dsimp only
  rw [if_neg (by rw [hrunning.uncancelled]; exact Bool.false_ne_true)]
  by_cases hpaused : st.paused = true
  · rw [if_pos hpaused]
    refine Or.inl ⟨⟨horderly, hpaused, rfl, hrunning.uncancelled, (hrunning.spawned hchild).1,
      hrunning.ending, hrunning.armed, hfault, hplain, hwaiting, hall, h.complaints⟩, fun hrun => ?_⟩
    exact absurd (hrun.symm.trans hpaused) Bool.false_ne_true
  · have hrun : st.paused = false := Bool.eq_false_iff.mpr hpaused
    have hwhole : newline ∉ st.stdoutBuf := notMem_of_splitLines (h.drained hrun)
    rw [if_neg hpaused]
    generalize hbase : { st with
      closeOutcome := some (ClaudeRun.closeOutcome st.cancelled signalled code) } = base at *
    have hbuf : base.stdoutBuf = st.stdoutBuf := by rw [← hbase]
    have hheard : base.heard = st.heard := by rw [← hbase]; rfl
    have hsound : base.fault = none := by rw [← hbase]; exact hfault
    have hbaseRun : base.paused = false := by rw [← hbase]; exact hrun
    have hbasePlain : ∀ e ∈ base.log, e.isDone = false := by rw [← hbase]; exact hplain
    have hcount : eventCount base.log = eventCount st.log := by rw [← hbase]
    obtain ⟨hread, hgrown, hstill, -, hlast⟩ := drain_flush horderly hsound (hbuf ▸ hwaiting)
    obtain ⟨kept, hkept, hnone⟩ := hlast hbaseRun (hbuf ▸ hwhole)
    have houtput : ofSource .stdout (base.drain env true).heard =
        (splitAll newline text).flatMap env.lineEvents := by
      rw [hgrown, ofSource_append, ofSource_tagged, hheard, hbuf]
      exact hall
    have hcomplaints : ofSource .stderr (base.drain env true).heard = errorEvents errors := by
      rw [hgrown, ofSource_append, ofSource_other (by decide), List.append_nil, hheard]
      exact h.complaints
    rw [hstill, Option.isSome_none, if_neg Bool.false_ne_true]
    obtain ⟨hfinished, hdone, hdelivered⟩ := finish_delivered env hread
      ((drain_works env true base).plain hbasePlain) hkept houtput hcomplaints
      (ClaudeRun.closeOutcome st.cancelled signalled code)
    refine Or.inr ⟨hfinished, hdone, hdelivered.trans (hnone.trans ?_)⟩
    unfold TailTold PausesLast
    rw [splitLines_of_notMem hwhole, hbuf, hcount]
    exact ⟨fun h _ => h, fun h => h hrun⟩

/-- **A run that is not cancelled ends when it is not paused at the close, or when it is resumed
then and not paused again.  Before its one end everything has been delivered, just when the holder
does not pause, at a close that is not in a pause, at an event before the last of those of a last
line that nothing ends.** -/
theorem turn_delivered_iff (env : RunnerEnv) (before after : List RunnerInput) (code : Option JsNumber)
    (signalled : Bool) (events : List JsObject)
    (hchild : (run env before).child.isSome = true)
    (hbefore : ∀ input ∈ before, Calm input = true)
    (hafter : ∀ input ∈ after, Later input = true)
    (hstream : env.streamEvents (utf8Decode (receivedChunks env before).1.flatten) = some events)
    (hcuts : env.streamEvents (decodeChunks (receivedChunks env before).1) =
      env.streamEvents (utf8Decode (receivedChunks env before).1.flatten)) :
    let ended := run env (before ++ .close code signalled :: after)
    ended.log.countP RunEffect.isDone = ended.finished.toNat ∧
      (ended.finished = false → ended.paused = true) ∧
      (ended.finished = true →
        (Delivered events (receivedChunks env before).2 ended.log ↔ TailTold env (run env before))) := by
  have hchunks := hcuts.trans hstream
  have hreadable : env.Readable
      (splitLines newline (decodeChunks (receivedChunks env before).1)).1 :=
    fun line hline =>
      (RunnerEnv.streamEvents_some hchunks).1 line (List.mem_append_left _ hline)
  have hclosed := close_settles (run_running env before hbefore) (run_once env before)
    (run_carries env before hbefore hreadable) hchild hchunks code signalled
  have hrun : run env (before ++ .close code signalled :: after) =
      Machine.run (step env) (step env (run env before) (.close code signalled)) after :=
    Machine.run_append (step env) (fresh env) before (.close code signalled :: after)
  have hsettles : Settles env events (receivedChunks env before).2 (TailTold env (run env before))
      (run env (before ++ .close code signalled :: after)) := by
    rw [hrun]
    generalize step env (run env before) (.close code signalled) = st at hclosed ⊢
    clear hrun
    induction after generalizing st with
    | nil => exact hclosed
    | cons input rest ih =>
        obtain ⟨hfirst, hrest⟩ := List.forall_mem_cons.mp hafter
        exact ih hrest _ (step_settles hclosed hfirst)
  refine ⟨run_once env _, fun hunfinished => ?_, fun hfinished => ?_⟩
  · rcases hsettles with ⟨hclosing, -⟩ | ⟨hfinished, -⟩
    · exact hclosing.paused
    · exact absurd (hunfinished.symm.trans hfinished) Bool.false_ne_true
  · rcases hsettles with ⟨hclosing, -⟩ | ⟨-, -, hdelivered⟩
    · exact absurd (hclosing.unfinished.symm.trans hfinished) Bool.false_ne_true
    · exact hdelivered

end ResumeRun

/-! ### A last line with two events -/

/-- The holder pauses in the callback of its first event. -/
def pausingEnv : RunnerEnv := { resumeEnv with pauses := fun n => n = 0 }

/-- An answer of two parts. -/
def twoPartsLine : JsString :=
  js "\x7b\"type\":\"assistant\",\"message\":\x7b\"content\":[\x7b\"type\":\"text\",\"text\":\"a\"\x7d,\x7b\"type\":\"text\",\"text\":\"b\"\x7d]\x7d\x7d"

def turnInputs (text : JsString) : List RunnerInput :=
  [.start (.child (some 7)), .stdout (utf8Encode text)]

theorem ended_answer_delivered :
    let ended := ResumeRun.run pausingEnv
      (turnInputs (twoPartsLine ++ [newline]) ++ [.close (some (.ofInt 0)) false, .resume])
    ended.log.countP RunEffect.isDone = ended.finished.toNat ∧
      (ended.finished = false → ended.paused = true) ∧
      (ended.finished = true →
        (ResumeRun.Delivered
            ((pausingEnv.streamEvents (utf8Decode (ResumeRun.receivedChunks pausingEnv
              (turnInputs (twoPartsLine ++ [newline]))).1.flatten)).get (by decide +kernel))
            (ResumeRun.receivedChunks pausingEnv (turnInputs (twoPartsLine ++ [newline]))).2
            ended.log ↔
          ResumeRun.TailTold pausingEnv
            (ResumeRun.run pausingEnv (turnInputs (twoPartsLine ++ [newline]))))) := by
  refine ResumeRun.turn_delivered_iff pausingEnv (turnInputs (twoPartsLine ++ [newline])) [.resume] _ _ _
    (by decide +kernel) (by decide) (by decide) (Option.some_get _).symm ?_
  rw [(decodeChunks_eq_iff _).mpr]
  exact ⟨(fun h => nomatch h.2), trivial⟩

/-- Both parts are read at the close, and one is delivered. -/
theorem last_answer_lost :
    (pausingEnv.streamEvents (utf8Decode (ResumeRun.receivedChunks pausingEnv
        (turnInputs twoPartsLine)).1.flatten)).map List.length = some 2 ∧
      (ResumeRun.run pausingEnv
        (turnInputs twoPartsLine ++ [.close (some (.ofInt 0)) false])).finished = true ∧
      (stdoutEvents (ClaudeRun.beforeDone (ResumeRun.run pausingEnv
        (turnInputs twoPartsLine ++ [.close (some (.ofInt 0)) false])).log)).length = 1 := by
  decide +kernel

end HuginAgent
