/-
The tail of what a resumed session complains of.

Every chunk of errors is added to the tail and the tail is cut to its last 8192 units, chunk by
chunk.  That leaves the last 8192 units of all that has come (`stderrTail_run`): nothing else
that the run does touches it.
-/
import HuginAgent.Js.Halves
import HuginAgent.Sessions.Delivered

namespace HuginAgent

/-- The last units of a text. -/
def lastUnits (n : Nat) (s : JsString) : JsString := s.drop (s.length - n)

/-- Cutting now and again leaves what cutting at the end leaves. -/
theorem lastUnits_append (n : Nat) (s t : JsString) :
    lastUnits n (lastUnits n s ++ t) = lastUnits n (s ++ t) := by
  have hsplit : s.drop (s.length - n) ++ t = (s ++ t).drop (s.length - n) :=
    (List.drop_append_of_le_length (Nat.sub_le _ _)).symm
  rw [lastUnits, lastUnits, lastUnits, hsplit, List.drop_drop, List.length_drop, List.length_append]
  congr 1
  omega

@[simp] theorem lastUnits_nil (n : Nat) : lastUnits n [] = [] := List.drop_nil

namespace ResumeRun

variable {env : RunnerEnv} {st st' : ResumeRun}

/-! ### What leaves the tail alone -/

theorem pause_tail (st : ResumeRun) : st.pause.stderrTail = st.stderrTail := by
  unfold pause
  split <;> rfl

theorem tell_tail (env : RunnerEnv) (st : ResumeRun) (ev : EventSource × JsObject) :
    (st.tell env ev).stderrTail = st.stderrTail := by
  unfold tell
  split
  · exact pause_tail _
  · rfl

theorem emit_tail (env : RunnerEnv) (source : EventSource) (st : ResumeRun) (ev : JsObject) :
    (st.emit env source ev).stderrTail = st.stderrTail := by
  unfold emit
  split
  · rfl
  · exact tell_tail env st _

theorem flushEvents_tail (env : RunnerEnv) (events : List (EventSource × JsObject))
    (st : ResumeRun) : (flushEvents env events st).stderrTail = st.stderrTail := by
  induction events generalizing st with
  | nil => rfl
  | cons ev rest ih =>
      rw [flushEvents]
      split
      · rfl
      · exact (ih _).trans (tell_tail env st ev)

theorem observeLine_tail (st : ResumeRun) (line : JsValue) :
    (st.observeLine line).stderrTail = st.stderrTail := by
  unfold observeLine
  split <;> rfl

theorem observeEvent_tail (st : ResumeRun) (ev : JsObject) :
    (st.observeEvent ev).stderrTail = st.stderrTail := by
  unfold observeEvent
  split
  · split <;> rfl
  · rfl

/-- Events one after the other, each of which leaves the tail alone. -/
theorem foldl_tail {f : ResumeRun → JsObject → ResumeRun}
    (h : ∀ st ev, (f st ev).stderrTail = st.stderrTail) (events : List JsObject) (st : ResumeRun) :
    (events.foldl f st).stderrTail = st.stderrTail := by
  induction events generalizing st with
  | nil => rfl
  | cons ev rest ih => exact (ih _).trans (h st ev)

theorem parseAndEmit_tail (env : RunnerEnv) (st : ResumeRun) (line : JsString) :
    (st.parseAndEmit env line).stderrTail = st.stderrTail := by
  unfold parseAndEmit
  split
  · rfl
  split
  · rfl
  split
  · split
    · exact observeLine_tail st _
    · exact (foldl_tail (emit_tail env .stdout) _ _).trans (observeLine_tail st _)
  · split
    · rfl
    · exact foldl_tail (fun st ev => (emit_tail env .stdout _ ev).trans (observeEvent_tail st ev)) _ st

theorem drainLines_tail (env : RunnerEnv) (lines : List JsString) (rest : JsString)
    (st : ResumeRun) : (drainLines env lines rest st).stderrTail = st.stderrTail := by
  induction lines generalizing st with
  | nil => rfl
  | cons line lines ih =>
      rw [drainLines]
      split
      · exact parseAndEmit_tail env st line
      · exact (ih _).trans (parseAndEmit_tail env st line)

theorem drain_tail (env : RunnerEnv) (flush : Bool) (st : ResumeRun) :
    (st.drain env flush).stderrTail = st.stderrTail := by
  have hlines := drainLines_tail env (splitLines newline st.stdoutBuf).1
    (splitLines newline st.stdoutBuf).2 st
  unfold drain
  dsimp only
  split
  · unfold flushTail
    split
    · exact hlines
    · exact (parseAndEmit_tail env _ _).trans hlines
  · exact hlines

theorem finish_tail (env : RunnerEnv) (st : ResumeRun) (outcome : EngineOutcome) :
    (st.finish env outcome).stderrTail = st.stderrTail := by
  unfold finish
  split <;> rfl

theorem maybeFinishClosed_tail (env : RunnerEnv) (st : ResumeRun) :
    (st.maybeFinishClosed env).stderrTail = st.stderrTail := by
  unfold maybeFinishClosed
  split
  · rfl
  split
  · exact finish_tail env st _
  split
  · rfl
  split
  · exact drain_tail env true st
  · exact (finish_tail env _ _).trans (drain_tail env true st)

theorem killGroup_tail (st : ResumeRun) (sig : RunSignal) :
    (st.killGroup sig).stderrTail = st.stderrTail := by
  unfold killGroup
  split <;> rfl

theorem resume_tail (env : RunnerEnv) (st : ResumeRun) :
    (st.resume env).stderrTail = st.stderrTail := by
  have hflushed : ({ st.note .resumed with paused := false }.flushPendingEvents env).stderrTail =
      st.stderrTail := flushEvents_tail env _ _
  unfold resume
  split
  · rfl
  refine Eq.trans ?_ hflushed
  generalize { st.note .resumed with paused := false }.flushPendingEvents env = flushed
  unfold resumeOutput
  dsimp only
  split
  · rfl
  split
  · exact drain_tail env _ flushed
  · exact (maybeFinishClosed_tail env _).trans (drain_tail env _ flushed)

theorem start_tail (env : RunnerEnv) (st : ResumeRun) (spawned : ClaudeRun.SpawnResult) :
    (st.start env spawned).stderrTail = st.stderrTail := by
  unfold start
  split
  · rfl
  split
  · exact finish_tail env _ _
  · cases spawned <;> rfl

/-! ### The tail of a run -/

theorem stderrData_tail (env : RunnerEnv) (st : ResumeRun) (chunk : List UInt8) :
    (st.stderrData env chunk).stderrTail =
      lastUnits stderrTailUnits (st.stderrTail ++ utf8Decode chunk) := by
  unfold stderrData
  rw [emit_tail, lastUnits]

theorem handle_tail (env : RunnerEnv) (st : ResumeRun) {input : RunnerInput}
    (h : ∀ chunk, input ≠ .stderr chunk) : (st.handle env input).stderrTail = st.stderrTail := by
  cases input with
  | start spawned => exact start_tail env st spawned
  | stdout chunk =>
      unfold handle stdoutData
      dsimp only
      split
      · rfl
      · exact drain_tail env false _
  | stderr chunk => exact absurd rfl (h chunk)
  | childError error => exact (finish_tail env _ _).trans (emit_tail env .engine st _)
  | close code signalled => exact maybeFinishClosed_tail env _
  | timer n =>
      unfold handle fire
      dsimp only
      split
      · rfl
      · exact killGroup_tail _ .kill
  | ending => exact finish_tail env _ _
  | pause => exact pause_tail st
  | resume => exact resume_tail env st
  | cancel graceMs =>
      unfold handle cancel
      dsimp only
      split
      · rfl
      split
      · rfl
      · exact killGroup_tail _ .term

/-- All that the child has complained of. -/
def complaints (env : RunnerEnv) (inputs : List RunnerInput) : JsString :=
  decodeChunks (receivedChunks env inputs).2

theorem received_errors (st : ResumeRun) {input : RunnerInput} (h : ∀ chunk, input ≠ .stderr chunk)
    (got : List (List UInt8) × List (List UInt8)) : (received st input got).2 = got.2 := by
  unfold received
  split
  · rfl
  split
  · rfl
  · exact absurd rfl (h _)
  · rfl

/-- **The tail is the end of all complaints.** -/
theorem stderrTail_run (env : RunnerEnv) (inputs : List RunnerInput) :
    (run env inputs).stderrTail = lastUnits stderrTailUnits (complaints env inputs) := by
  refine Machine.track_invariant_all (step env) received
    (I := fun st got => st.stderrTail = lastUnits stderrTailUnits (decodeChunks got.2)) ?_
    (lastUnits_nil _).symm inputs
  intro st input got htail
  by_cases hstderr : ∃ chunk, input = .stderr chunk
  · obtain ⟨chunk, rfl⟩ := hstderr
    unfold step received
    split
    · exact htail
    · show (st.stderrData env chunk).stderrTail = _
      rw [stderrData_tail, htail, lastUnits_append, ClaudeRun.decodeChunks_snoc]
  · have hother : ∀ chunk, input ≠ .stderr chunk := fun chunk h => hstderr ⟨chunk, h⟩
    rw [received_errors st hother, ← htail]
    unfold step
    split
    · rfl
    · exact handle_tail env st hother

end ResumeRun

end HuginAgent
