/-
The output of a run, from the bytes of the child to the events.

The complete lines that have come are those that were taken, whose events have been told, and
those that wait in the buffer; each step keeps that.  What waits when the child closes is drained
once more, and what that leaves is lost: the last line if nothing ends it, and the lines behind
the one in which the holder pauses, or all of them if the run is paused already.
-/
import HuginAgent.Engine.Ended

namespace HuginAgent

/-! ### The events of lines -/

def lineEvents (number : Decimal → JsNumber) (line : JsString) : List JsObject :=
  (claudeLineEvents number line).getD []

def Readable (number : Decimal → JsNumber) (lines : List JsString) : Prop :=
  ∀ line ∈ lines, (claudeLineEvents number line).isSome = true

/-- The events of all the lines of a text, whether or not something ends the last. -/
def streamEvents (number : Decimal → JsNumber) (text : JsString) : Option (List JsObject) :=
  ((splitAll newline text).mapM (claudeLineEvents number)).map List.flatten

section

variable {number : Decimal → JsNumber}

theorem claudeLineEvents_of_readable {line : JsString}
    (h : (claudeLineEvents number line).isSome = true) :
    claudeLineEvents number line = some (lineEvents number line) := by
  obtain ⟨events, hevents⟩ := Option.isSome_iff_exists.mp h
  rw [lineEvents, hevents]
  rfl

theorem streamEvents_some {text : JsString} {events : List JsObject}
    (h : streamEvents number text = some events) :
    Readable number (splitAll newline text) ∧
      events = (splitAll newline text).flatMap (lineEvents number) := by
  obtain ⟨r, hr, rfl⟩ := Option.map_eq_some_iff.mp h
  obtain ⟨hreadable, rfl⟩ := mapM_getD hr
  exact ⟨hreadable, rfl⟩

end

namespace ClaudeRun

variable {env : RunEnv} {st st' : ClaudeRun}

/-! ### What is told of the output -/

theorem stdoutEvents_append (log more : List RunEffect) :
    stdoutEvents (log ++ more) = stdoutEvents log ++ stdoutEvents more := List.filterMap_append

theorem eventCount_append (log more : List RunEffect) :
    eventCount (log ++ more) = eventCount log + eventCount more := List.countP_append

/-- An event of the output. -/
theorem emit_stdout (env : RunEnv) (st : ClaudeRun) (ev : JsObject) :
    stdoutEvents (st.emit env .stdout ev).log = stdoutEvents st.log ++ [ev] ∧
      eventCount (st.emit env .stdout ev).log = eventCount st.log + 1 ∧
      ((st.emit env .stdout ev).paused = false ↔
        st.paused = false ∧ env.pauses (eventCount st.log) = false) := by
  unfold emit
  by_cases hpauses : env.pauses (eventCount st.log) = true
  · rw [if_pos hpauses]
    refine ⟨?_, ?_, ?_⟩
    · show stdoutEvents ((st.log ++ [_]) ++ [.paused]) = _
      rw [stdoutEvents_append, stdoutEvents_append]
      exact List.append_nil _
    · show eventCount ((st.log ++ [_]) ++ [.paused]) = _
      rw [eventCount_append, eventCount_append]
      rfl
    · refine iff_of_false (fun h => nomatch h) ?_
      rw [hpauses]
      exact fun h => nomatch h.2
  · rw [if_neg hpauses]
    refine ⟨stdoutEvents_append _ _, eventCount_append _ _, ?_⟩
    exact (and_iff_left (Bool.eq_false_iff.mpr hpauses)).symm

/-- The events of a line. -/
theorem emitAll_stdout (env : RunEnv) (st : ClaudeRun) (events : List JsObject) :
    stdoutEvents (events.foldl (emit env .stdout) st).log = stdoutEvents st.log ++ events ∧
      eventCount (events.foldl (emit env .stdout) st).log = eventCount st.log + events.length ∧
      ((events.foldl (emit env .stdout) st).paused = false ↔
        st.paused = false ∧ ∀ i < events.length, env.pauses (eventCount st.log + i) = false) := by
  induction events generalizing st with
  | nil =>
      refine ⟨(List.append_nil _).symm, rfl, ?_⟩
      exact (and_iff_left fun i hi => absurd hi (Nat.not_lt_zero i)).symm
  | cons ev events ih =>
      obtain ⟨hevents, hcount, hpaused⟩ := emit_stdout env st ev
      obtain ⟨ihevents, ihcount, ihpaused⟩ := ih (st.emit env .stdout ev)
      rw [List.foldl_cons, ihevents, ihcount, ihpaused, hevents, hcount, hpaused, List.length_cons]
      refine ⟨List.append_assoc _ _ _, by omega, ?_⟩
      rw [and_assoc]
      refine and_congr_right fun _ => ⟨?_, ?_⟩
      · rintro ⟨hfirst, hrest⟩ i hi
        cases i with
        | zero => exact hfirst
        | succ i =>
            have hi' := hrest i (by omega)
            rw [Nat.add_assoc, Nat.add_comm 1 i] at hi'
            exact hi'
      · intro h
        refine ⟨h 0 (Nat.succ_pos _), fun i hi => ?_⟩
        have hi' := h (i + 1) (by omega)
        rw [Nat.add_assoc, Nat.add_comm 1 i]
        exact hi'

/-- The run is not paused, and the holder does not pause at an event of these lines. -/
def Reaches (env : RunEnv) (st : ClaudeRun) (lines : List JsString) : Prop :=
  st.paused = false ∧
    ∀ i < (lines.flatMap (lineEvents env.number)).length, env.pauses (eventCount st.log + i) = false

theorem emitAll_frame (env : RunEnv) (source : EventSource) (st : ClaudeRun) (events : List JsObject) :
    (events.foldl (emit env source) st).fault = st.fault ∧
      (events.foldl (emit env source) st).stdoutBuf = st.stdoutBuf := by
  induction events generalizing st with
  | nil => exact ⟨rfl, rfl⟩
  | cons ev events ih =>
      have hone : (st.emit env source ev).fault = st.fault ∧
          (st.emit env source ev).stdoutBuf = st.stdoutBuf := by
        unfold emit
        split
        · exact ⟨rfl, rfl⟩
        · exact ⟨rfl, rfl⟩
      obtain ⟨hfault, hbuf⟩ := ih (st.emit env source ev)
      exact ⟨hfault.trans hone.1, hbuf.trans hone.2⟩

/-- A line before others is reached over. -/
theorem reaches_cons (env : RunEnv) (st : ClaudeRun) (line : JsString) (lines : List JsString) :
    Reaches env st (line :: lines) ↔
      Reaches env ((lineEvents env.number line).foldl (emit env .stdout) st) lines := by
  obtain ⟨-, hcount, hpaused⟩ := emitAll_stdout env st (lineEvents env.number line)
  unfold Reaches
  rw [hcount, hpaused, List.flatMap_cons, List.length_append, and_assoc]
  refine and_congr_right fun _ => ⟨?_, ?_⟩
  · intro h
    refine ⟨fun i hi => h i (by omega), fun i hi => ?_⟩
    rw [Nat.add_assoc]
    exact h _ (by omega)
  · rintro ⟨hfirst, hrest⟩ i hi
    by_cases hin : i < (lineEvents env.number line).length
    · exact hfirst i hin
    · have hi' := hrest (i - (lineEvents env.number line).length) (by omega)
      rw [Nat.add_assoc, Nat.add_sub_cancel' (Nat.le_of_not_lt hin)] at hi'
      exact hi'

/-- Lines are taken up to one in which the holder pauses. -/
theorem drainLines_spec (st : ClaudeRun) {lines : List JsString} (rest : JsString)
    (hreadable : Readable env.number lines) :
    ∃ taken left, lines = taken ++ left ∧
      stdoutEvents (drainLines env lines rest st).log =
        stdoutEvents st.log ++ taken.flatMap (lineEvents env.number) ∧
      (drainLines env lines rest st).stdoutBuf = joinLines newline left rest ∧
      (drainLines env lines rest st).fault = st.fault ∧
      (left ≠ [] → (drainLines env lines rest st).paused = true) ∧
      (left.flatMap (lineEvents env.number) = [] ↔
        ∀ pre line post, lines = pre ++ line :: post → lineEvents env.number line ≠ [] →
          Reaches env st pre) := by
  induction lines generalizing st with
  | nil =>
      refine ⟨[], [], rfl, (List.append_nil _).symm, rfl, rfl, fun h => absurd rfl h, ?_⟩
      refine iff_of_true rfl ?_
      intro pre line post hsplit
      exact absurd hsplit.symm (List.append_ne_nil_of_right_ne_nil _ (List.cons_ne_nil _ _))
  | cons line lines ih =>
      obtain ⟨hline, hlines⟩ := List.forall_mem_cons.mp hreadable
      rw [drainLines]
      by_cases hpaused : st.paused = true
      · rw [if_pos hpaused]
        refine ⟨[], line :: lines, rfl, (List.append_nil _).symm, rfl, rfl, fun _ => hpaused, ?_⟩
        rw [List.flatMap_eq_nil_iff]
        constructor
        · intro h pre more post hsplit hne
          refine absurd (h more ?_) hne
          rw [hsplit]
          exact List.mem_append_right _ List.mem_cons_self
        · intro h more hmore
          by_contra hne
          obtain ⟨pre, post, hsplit⟩ := List.append_of_mem hmore
          rw [(h pre more post hsplit hne).1] at hpaused
          exact Bool.false_ne_true hpaused
      rw [if_neg hpaused, claudeLineEvents_of_readable hline]
      have hunpaused : st.paused = false := Bool.eq_false_iff.mpr hpaused
      obtain ⟨hevents, hcount, hstays⟩ := emitAll_stdout env st (lineEvents env.number line)
      obtain ⟨hframe, -⟩ := emitAll_frame env .stdout st (lineEvents env.number line)
      obtain ⟨taken, left, hsplit, htold, hbuf, hfault, hstopped, hleft⟩ :=
        ih ((lineEvents env.number line).foldl (emit env .stdout) st) hlines
      refine ⟨line :: taken, left, by rw [hsplit]; rfl, ?_, hbuf, hfault.trans hframe, hstopped, ?_⟩
      · rw [htold, hevents, List.flatMap_cons, List.append_assoc]
      · rw [hleft]
        constructor
        · intro h pre more post hsplit hne
          cases pre with
          | nil => exact ⟨hunpaused, fun i hi => absurd hi (Nat.not_lt_zero i)⟩
          | cons head pre =>
              obtain ⟨rfl, hrest⟩ := List.cons.inj hsplit
              exact (reaches_cons env st _ pre).mpr (h pre more post hrest hne)
        · intro h pre more post hsplit hne
          refine (reaches_cons env st line pre).mp (h (line :: pre) more post ?_ hne)
          rw [hsplit]
          rfl

/-- A readable buffer is drained up to a pause. -/
theorem drain_spec (st : ClaudeRun) (hreadable : Readable env.number (splitLines newline st.stdoutBuf).1) :
    ∃ taken, (splitLines newline st.stdoutBuf).1 =
        taken ++ (splitLines newline (st.drain env).stdoutBuf).1 ∧
      (splitLines newline (st.drain env).stdoutBuf).2 = (splitLines newline st.stdoutBuf).2 ∧
      stdoutEvents (st.drain env).log =
        stdoutEvents st.log ++ taken.flatMap (lineEvents env.number) ∧
      (st.drain env).fault = st.fault ∧
      ((splitLines newline (st.drain env).stdoutBuf).1 ≠ [] → (st.drain env).paused = true) ∧
      ((splitLines newline (st.drain env).stdoutBuf).1.flatMap (lineEvents env.number) = [] ↔
        ∀ pre line post, (splitLines newline st.stdoutBuf).1 = pre ++ line :: post →
          lineEvents env.number line ≠ [] → Reaches env st pre) := by
  obtain ⟨taken, left, hsplit, htold, hbuf, hfault, hstopped, hleft⟩ :=
    drainLines_spec st (splitLines newline st.stdoutBuf).2 hreadable
  have hwhole : (∀ line ∈ (splitLines newline st.stdoutBuf).1, newline ∉ line) ∧
      newline ∉ (splitLines newline st.stdoutBuf).2 := notMem_splitLines st.stdoutBuf
  obtain ⟨hlines, hrest⟩ := hwhole
  have hcut : splitLines newline (st.drain env).stdoutBuf =
      (left, (splitLines newline st.stdoutBuf).2) := by
    show splitLines newline (drainLines env _ _ st).stdoutBuf = _
    rw [hbuf]
    refine splitLines_joinLines (fun line hline => hlines line ?_) hrest
    rw [hsplit]
    exact List.mem_append_right _ hline
  rw [hcut]
  exact ⟨taken, hsplit, rfl, htold, hfault, hstopped, hleft⟩

/-! ### What is received and what is told -/

/-- The chunks of output that have come, with the one that comes. -/
def received (st : ClaudeRun) (input : RunInput) (chunks : List (List UInt8)) : List (List UInt8) :=
  match input with
  | .stdout chunk => if st.fault.isSome || !st.Admits input then chunks else chunks ++ [chunk]
  | _ => chunks

def receivedChunks (env : RunEnv) (inputs : List RunInput) : List (List UInt8) :=
  Machine.track (step env) received (fresh env) [] inputs

/-- The lines of the text are those that have been told and those that wait, and none waits unless
the run is paused. -/
structure Carries (number : Decimal → JsNumber) (text : JsString) (st : ClaudeRun) : Prop where
  told : ∃ taken, stdoutEvents st.log = taken.flatMap (lineEvents number) ∧
    (splitLines newline text).1 = taken ++ (splitLines newline st.stdoutBuf).1
  rest : (splitLines newline text).2 = (splitLines newline st.stdoutBuf).2
  waiting : st.paused = false → (splitLines newline st.stdoutBuf).1 = []
  sound : st.fault ≠ some .callback

/-- The output is left alone. -/
structure Leaves (st st' : ClaudeRun) : Prop where
  events : stdoutEvents st'.log = stdoutEvents st.log
  stdoutBuf : st'.stdoutBuf = st.stdoutBuf
  paused : st'.paused = false → st.paused = false
  fault : st'.fault = some .callback → st.fault = some .callback

theorem Leaves.trans {st'' : ClaudeRun} (h : Leaves st st') (h' : Leaves st' st'') : Leaves st st'' :=
  ⟨h'.events.trans h.events, h'.stdoutBuf.trans h.stdoutBuf, fun hp => h.paused (h'.paused hp),
    fun hf => h.fault (h'.fault hf)⟩

theorem Leaves.of_log (hlog : st'.log = st.log) (hbuf : st'.stdoutBuf = st.stdoutBuf)
    (hpaused : st'.paused = st.paused) (hfault : st'.fault = some .callback → st.fault = some .callback) :
    Leaves st st' :=
  ⟨by rw [hlog], hbuf, fun hp => hpaused ▸ hp, hfault⟩

theorem Leaves.noted {e : RunEffect} (he : e.stdoutEvent = none) : Leaves st (st.note e) := by
  refine ⟨?_, rfl, id, id⟩
  show stdoutEvents (st.log ++ [e]) = _
  rw [stdoutEvents_append, stdoutEvents, stdoutEvents, List.filterMap_cons, he]
  exact List.append_nil _

theorem pause_leaves (st : ClaudeRun) : Leaves st st.pause := by
  have hnoted : Leaves st (st.note .paused) := .noted rfl
  exact ⟨hnoted.events, rfl, (fun h => nomatch h), id⟩

theorem emit_leaves (env : RunEnv) {source : EventSource} (hsource : source ≠ .stdout)
    (st : ClaudeRun) (ev : JsObject) : Leaves st (st.emit env source ev) := by
  have hnone : (RunEffect.event source ev).stdoutEvent = none := by
    cases source with
    | stdout => exact absurd rfl hsource
    | stderr => rfl
    | engine => rfl
  unfold emit
  split
  · exact (Leaves.noted hnone).trans (pause_leaves _)
  · exact Leaves.noted hnone

theorem finish_leaves (env : RunEnv) (st : ClaudeRun) (outcome : EngineOutcome) :
    Leaves st (st.finish env outcome) := by
  unfold finish
  split
  · exact .of_log rfl rfl rfl id
  · have hnoted : Leaves st (st.note (.done outcome)) := .noted rfl
    exact hnoted.trans (.of_log rfl rfl rfl id)

theorem killGroup_leaves (st : ClaudeRun) (sig : RunSignal) : Leaves st (st.killGroup sig) := by
  unfold killGroup
  split
  · exact .noted rfl
  · exact .of_log rfl rfl rfl id

theorem spawn_leaves (env : RunEnv) (st : ClaudeRun) (spawned : SpawnResult) :
    Leaves st (st.spawn env spawned) := by
  cases spawned with
  | throws => exact .of_log rfl rfl rfl fun h => nomatch h
  | child pid =>
      unfold spawn setTimeoutTimer
      dsimp only
      split
      · exact .of_log rfl rfl rfl id
      · exact .of_log rfl rfl rfl id

theorem abort_leaves (env : RunEnv) (st : ClaudeRun) (ev : JsObject) (errorKind : JsString) :
    Leaves st (st.abort env ev errorKind) := by
  have hphase : Leaves st { st with phase := .ended } := .of_log rfl rfl rfl id
  have hemit := emit_leaves env (by decide : EventSource.engine ≠ .stdout) { st with phase := .ended } ev
  exact (hphase.trans hemit).trans (finish_leaves env _ _)

theorem Carries.leaves {number : Decimal → JsNumber} {text : JsString} (h : Carries number text st)
    (hleaves : Leaves st st') : Carries number text st' := by
  obtain ⟨taken, htaken, hlines⟩ := h.told
  refine ⟨⟨taken, hleaves.events.trans htaken, ?_⟩, ?_, ?_, ?_⟩
  · rw [hleaves.stdoutBuf]
    exact hlines
  · rw [hleaves.stdoutBuf]
    exact h.rest
  · rw [hleaves.stdoutBuf]
    exact fun hp => h.waiting (hleaves.paused hp)
  · exact fun hf => h.sound (hleaves.fault hf)

/-- A drain tells the lines it takes. -/
theorem Carries.drain {text : JsString}
    (htold : ∃ taken, stdoutEvents st.log = taken.flatMap (lineEvents env.number) ∧
      (splitLines newline text).1 = taken ++ (splitLines newline st.stdoutBuf).1)
    (hrest : (splitLines newline text).2 = (splitLines newline st.stdoutBuf).2)
    (hsound : st.fault ≠ some .callback) (hreadable : Readable env.number (splitLines newline text).1) :
    Carries env.number text (st.drain env) := by
  obtain ⟨before, hbefore, hlines⟩ := htold
  have hwaiting : Readable env.number (splitLines newline st.stdoutBuf).1 := by
    intro line hline
    refine hreadable line ?_
    rw [hlines]
    exact List.mem_append_right _ hline
  obtain ⟨taken, hsplit, hcut, hevents, hfault, hstopped, -⟩ := drain_spec st hwaiting
  refine ⟨⟨before ++ taken, ?_, ?_⟩, hrest.trans hcut.symm, ?_, by rw [hfault]; exact hsound⟩
  · rw [hevents, hbefore, List.flatMap_append]
  · rw [hlines, hsplit, List.append_assoc]
  · intro hpaused
    by_contra hne
    rw [hstopped hne] at hpaused
    exact nomatch hpaused

theorem decodeChunks_snoc (chunks : List (List UInt8)) (chunk : List UInt8) :
    decodeChunks (chunks ++ [chunk]) = decodeChunks chunks ++ utf8Decode chunk := by
  rw [decodeChunks, List.flatMap_append, List.flatMap_singleton]
  rfl

theorem Readable.of_append {number : Decimal → JsNumber} {text more : JsString}
    (h : Readable number (splitLines newline (text ++ more)).1) :
    Readable number (splitLines newline text).1 := by
  intro line hline
  refine h line ?_
  rw [splitLines_add]
  exact List.mem_append_left _ hline

/-- A chunk is put behind what waits. -/
theorem stdoutData_carries {text : JsString} (h : Carries env.number text st) (chunk : List UInt8)
    (hreadable : Readable env.number (splitLines newline (text ++ utf8Decode chunk)).1) :
    Carries env.number (text ++ utf8Decode chunk) (st.stdoutData env chunk) := by
  obtain ⟨taken, htaken, hlines⟩ := h.told
  obtain ⟨hmore, hleft⟩ := splitLines_go_on hlines h.rest (utf8Decode chunk)
  exact Carries.drain ⟨taken, htaken, hmore⟩ hleft h.sound hreadable

/-- Whatever comes, the output is carried on. -/
theorem handle_carries {text : JsString} (h : Carries env.number text st) (input : RunInput)
    (hinput : ∀ chunk, input ≠ .stdout chunk)
    (hreadable : Readable env.number (splitLines newline text).1) :
    Carries env.number text (st.handle env input) := by
  cases input with
  | start worktree spawned =>
      refine h.leaves ?_
      unfold handle start
      dsimp only
      split
      · exact .of_log rfl rfl rfl id
      · split
        · exact abort_leaves _ _ _ _
        · split
          · exact .of_log rfl rfl rfl id
          · have hworktree : Leaves st { st with worktree := true } := .of_log rfl rfl rfl id
            exact hworktree.trans (spawn_leaves env _ spawned)
  | bridgeFailed message => exact h.leaves (abort_leaves _ _ _ _)
  | bridgeStarted config spawned =>
      refine h.leaves ?_
      unfold handle bridgeStarted
      dsimp only
      split
      · exact .of_log rfl rfl rfl id
      · split
        · exact abort_leaves _ _ _ _
        · exact spawn_leaves env st spawned
  | stdout chunk => exact absurd rfl (hinput chunk)
  | stderr chunk => exact h.leaves (emit_leaves env (by decide) st _)
  | childError error =>
      have hemit := emit_leaves env (by decide : EventSource.engine ≠ .stdout) st (engineError error)
      exact h.leaves (hemit.trans (finish_leaves env _ _))
  | close code signalled =>
      have hdrain := Carries.drain h.told h.rest h.sound hreadable
      unfold handle close
      dsimp only
      split
      · exact hdrain
      · exact hdrain.leaves (finish_leaves env _ _)
  | timer n =>
      refine h.leaves ?_
      unfold handle fire
      dsimp only
      split
      · exact .of_log rfl rfl rfl id
      · have hcleared : Leaves st { st with timers := st.timers.clear (some n), cancelled := true } :=
          .of_log rfl rfl rfl id
        exact (hcleared.trans (killGroup_leaves _ _)).trans (finish_leaves env _ _)
      · have hcleared : Leaves st { st with timers := st.timers.clear (some n) } :=
          .of_log rfl rfl rfl id
        exact hcleared.trans (killGroup_leaves _ _)
  | approval req =>
      refine h.leaves ?_
      unfold handle raise
      dsimp only
      split
      · exact .noted rfl
      · exact .of_log rfl rfl rfl id
  | pause => exact h.leaves (pause_leaves st)
  | resume =>
      have hnoted : Leaves st (st.note .resumed) := .noted rfl
      obtain ⟨taken, htaken, hlines⟩ := h.told
      exact Carries.drain ⟨taken, hnoted.events.trans htaken, hlines⟩ h.rest h.sound hreadable
  | cancel graceMs =>
      refine h.leaves ?_
      have hcancelled : Leaves st { st with cancelled := true } := .of_log rfl rfl rfl id
      unfold handle cancel
      dsimp only
      split
      · exact hcancelled.trans (finish_leaves env _ _)
      · have hkilled := hcancelled.trans (killGroup_leaves { st with cancelled := true } .term)
        exact hkilled.trans (.of_log rfl rfl rfl id)

theorem step_carries {chunks : List (List UInt8)} (h : Carries env.number (decodeChunks chunks) st)
    (input : RunInput)
    (hreadable : Readable env.number (splitLines newline (decodeChunks (received st input chunks))).1) :
    Carries env.number (decodeChunks (received st input chunks)) (step env st input) := by
  unfold step
  by_cases hcomes : (st.fault.isSome || !st.Admits input) = true
  · have hsame : received st input chunks = chunks := by
      unfold received
      split
      · exact if_pos hcomes
      · rfl
    rw [if_pos hcomes, hsame]
    exact h
  rw [if_neg hcomes]
  by_cases hinput : ∃ chunk, input = .stdout chunk
  · obtain ⟨chunk, rfl⟩ := hinput
    have hmore : received st (.stdout chunk) chunks = chunks ++ [chunk] := if_neg hcomes
    rw [hmore, decodeChunks_snoc] at hreadable ⊢
    exact stdoutData_carries h chunk hreadable
  · have hsame : received st input chunks = chunks := by
      unfold received
      split
      · exact absurd ⟨_, rfl⟩ hinput
      · rfl
    rw [hsame] at hreadable ⊢
    exact handle_carries h input (fun chunk hchunk => hinput ⟨chunk, hchunk⟩) hreadable

theorem receivedChunks_snoc (env : RunEnv) (inputs : List RunInput) (input : RunInput) :
    receivedChunks env (inputs ++ [input]) =
      received (run env inputs) input (receivedChunks env inputs) :=
  Machine.track_append (step env) received (fresh env) [] inputs input

/-- **In every run the lines that have come are those that were told and those that wait.** -/
theorem run_carries (env : RunEnv) (inputs : List RunInput)
    (hreadable : Readable env.number
      (splitLines newline (decodeChunks (receivedChunks env inputs))).1) :
    Carries env.number (decodeChunks (receivedChunks env inputs)) (run env inputs) := by
  induction inputs using List.reverseRecOn with
  | nil => exact ⟨⟨[], rfl, rfl⟩, rfl, fun _ => rfl, fun h => nomatch h⟩
  | append_singleton inputs input ih =>
      have hrun : run env (inputs ++ [input]) = step env (run env inputs) input :=
        Machine.run_append (step env) (fresh env) inputs [input]
      rw [receivedChunks_snoc] at hreadable ⊢
      rw [hrun]
      refine step_carries (ih ?_) input hreadable
      unfold received at hreadable
      split at hreadable
      · split at hreadable
        · exact hreadable
        · rw [decodeChunks_snoc] at hreadable
          exact Readable.of_append hreadable
      · exact hreadable

/-! ### The close -/

/-- The run is not cancelled, no timer fires, and the child has not closed. -/
def Calm : RunInput → Bool
  | .cancel _ | .timer _ | .close _ _ => false
  | _ => true

/-- What is relied on in a child: without a signal to it or a message, it reports an error only
when it could not be spawned, and then it has no output. -/
def Behaves (st : ClaudeRun) : RunInput → Prop
  | .stdout _ => (st.child.bind ChildProcess.pid).isSome = true
  | .childError _ => st.child.bind ChildProcess.pid = none
  | _ => True

/-- A run that is neither cancelled nor timed out ends before the close only without output. -/
structure Calmly (st : ClaudeRun) (chunks : List (List UInt8)) : Prop where
  faultless : st.child.isSome = true → st.fault ≠ some .start
  early : st.phase ≠ .ended → st.child = none
  silent : st.child.bind ChildProcess.pid = none → chunks = []
  ended : st.finished = true → st.child.bind ChildProcess.pid = none

/-- The condition on the state that a close comes in. -/
structure AllTold (env : RunEnv) (st : ClaudeRun) : Prop where
  /-- A line that waits and has events is reached: the run is not paused, and the holder does not
  pause in the lines that wait before it. -/
  lines : ∀ pre line post, (splitLines newline st.stdoutBuf).1 = pre ++ line :: post →
    lineEvents env.number line ≠ [] → Reaches env st pre
  /-- What nothing ends has no events. -/
  tail : lineEvents env.number (splitLines newline st.stdoutBuf).2 = []

def beforeDone (log : List RunEffect) : List RunEffect := log.takeWhile fun e => !e.isDone

theorem Calmly.tells {chunks : List (List UInt8)} (h : Calmly st chunks) (htells : Tells st st')
    (hfault : st'.fault = some .start → st.fault = some .start) : Calmly st' chunks := by
  obtain ⟨effects, -, hst'⟩ := htells
  have hchild : st'.child = st.child := by rw [hst']
  have hphase : st'.phase = st.phase := by rw [hst']
  have hfinished : st'.finished = st.finished := by rw [hst']
  refine ⟨?_, ?_, ?_, ?_⟩
  · rw [hchild]
    exact fun hc hf => h.faultless hc (hfault hf)
  · rw [hchild, hphase]
    exact h.early
  · rw [hchild]
    exact h.silent
  · rw [hchild, hfinished]
    exact h.ended

theorem finish_child (env : RunEnv) (st : ClaudeRun) (outcome : EngineOutcome) :
    (st.finish env outcome).child = st.child ∧ (st.finish env outcome).phase = st.phase ∧
      (st.finish env outcome).fault = st.fault := by
  unfold finish
  split
  · exact ⟨rfl, rfl, rfl⟩
  · exact ⟨rfl, rfl, rfl⟩

theorem drainLines_fault (env : RunEnv) (lines : List JsString) (rest : JsString) (st : ClaudeRun) :
    (drainLines env lines rest st).fault = some .start → st.fault = some .start := by
  induction lines generalizing st with
  | nil => exact id
  | cons line lines ih =>
      rw [drainLines]
      split
      · exact id
      · split
        · intro h; cases h
        · intro h
          rw [← (emitAll_frame env .stdout st _).1]
          exact ih _ h

theorem Calmly.childless (hchild : st.child = none) : Calmly st [] := by
  refine ⟨?_, fun _ => hchild, fun _ => rfl, ?_⟩
  · rw [hchild]
    exact fun h => nomatch h
  · rw [hchild]
    exact fun _ => rfl

theorem abort_child (env : RunEnv) (st : ClaudeRun) (ev : JsObject) (errorKind : JsString) :
    (st.abort env ev errorKind).child = st.child := by
  obtain ⟨effects, -, hemit⟩ := (emit_tells env .engine { st with phase := .ended } ev).1
  unfold abort
  rw [(finish_child env _ _).1, hemit]

theorem spawn_calmly (st : ClaudeRun) (hchild : st.child = none) (hfinished : st.finished = false)
    (hfault : st.fault = none) (spawned : SpawnResult) : Calmly (st.spawn env spawned) [] := by
  cases spawned with
  | throws => exact .childless hchild
  | child pid =>
      unfold spawn setTimeoutTimer
      dsimp only
      split
      · refine ⟨fun _ => ?_, fun h => absurd rfl h, fun _ => rfl, fun h => ?_⟩
        · rw [hfault]
          exact fun h => nomatch h
        · rw [hfinished] at h
          exact nomatch h
      · refine ⟨fun _ => ?_, fun h => absurd rfl h, fun _ => rfl, fun h => ?_⟩
        · rw [hfault]
          exact fun h => nomatch h
        · rw [hfinished] at h
          exact nomatch h

theorem handle_calmly {chunks : List (List UInt8)} (h : Calmly st chunks) {input : RunInput}
    (hcalm : Calm input = true) (hbehaves : Behaves st input) (hfault : st.fault = none)
    (hadmits : st.Admits input = true) :
    Calmly (st.handle env input) (received st input chunks) := by
  have hcomes : ¬ (st.fault.isSome || !st.Admits input) = true := by
    rw [hfault, hadmits]
    exact Bool.false_ne_true
  cases input with
  | start worktree spawned =>
      have hphase : st.phase = .deferred := of_decide_eq_true hadmits
      have hchild := h.early (by rw [hphase]; decide)
      obtain rfl := h.silent (by rw [hchild]; rfl)
      show Calmly _ []
      unfold handle start
      dsimp only
      split
      · exact .childless hchild
      · rename_i hfinished
        split
        · exact .childless ((abort_child _ _ _ _).trans hchild)
        · split
          · exact .childless hchild
          · exact spawn_calmly { st with worktree := true } hchild (Bool.eq_false_iff.mpr hfinished)
              hfault spawned
  | bridgeFailed message =>
      have hphase : st.phase = .binding := of_decide_eq_true hadmits
      have hchild := h.early (by rw [hphase]; decide)
      obtain rfl := h.silent (by rw [hchild]; rfl)
      exact .childless ((abort_child _ _ _ _).trans hchild)
  | bridgeStarted config spawned =>
      have hphase : st.phase = .binding := of_decide_eq_true hadmits
      have hchild := h.early (by rw [hphase]; decide)
      obtain rfl := h.silent (by rw [hchild]; rfl)
      show Calmly _ []
      unfold handle bridgeStarted
      dsimp only
      split
      · exact .childless hchild
      · rename_i hfinished
        split
        · exact .childless ((abort_child _ _ _ _).trans hchild)
        · exact spawn_calmly st hchild (Bool.eq_false_iff.mpr hfinished) hfault spawned
  | stdout chunk =>
      have hchunks : received st (.stdout chunk) chunks = chunks ++ [chunk] := if_neg hcomes
      have hsome : (st.child.bind ChildProcess.pid).isSome = true := hbehaves
      have hnot : ¬ st.child.bind ChildProcess.pid = none := by
        rw [Option.isSome_iff_ne_none] at hsome
        exact hsome
      have hmore : Calmly { st with stdoutBuf := st.stdoutBuf ++ utf8Decode chunk } (chunks ++ [chunk]) :=
        ⟨h.faultless, h.early, fun hnone => absurd hnone hnot, h.ended⟩
      rw [hchunks]
      exact hmore.tells (drain_tells env _) (drainLines_fault env _ _ _)
  | stderr chunk =>
      refine h.tells (emit_tells env .stderr st _).1 ?_
      exact fun hf => (emitAll_frame env .stderr st [stderrChunk (utf8Decode chunk)]).1 ▸ hf
  | childError error =>
      have hemit := h.tells (emit_tells env .engine st (engineError error)).1
        (fun hf => (emitAll_frame env .engine st [engineError error]).1 ▸ hf)
      have hpid : st.child.bind ChildProcess.pid = none := hbehaves
      obtain ⟨hchild, hphase, hkept⟩ := finish_child env (st.emit env .engine (engineError error))
        (.error none (some (js "spawn_failed")))
      obtain ⟨effects, -, hframe⟩ := (emit_tells env .engine st (engineError error)).1
      refine ⟨?_, ?_, ?_, ?_⟩
      · show (finish env _ _).child.isSome = true → (finish env _ _).fault ≠ _
        rw [hchild, hkept]
        exact hemit.faultless
      · show (finish env _ _).phase ≠ _ → (finish env _ _).child = _
        rw [hchild, hphase]
        exact hemit.early
      · exact fun _ => h.silent hpid
      · intro _
        show (finish env _ _).child.bind _ = _
        rw [hchild, hframe]
        exact hpid
  | close code signalled => exact nomatch hcalm
  | timer n => exact nomatch hcalm
  | approval req =>
      show Calmly (st.raise req) chunks
      unfold raise
      split
      · exact ⟨h.faultless, h.early, h.silent, h.ended⟩
      · exact h
  | pause => exact ⟨h.faultless, h.early, h.silent, h.ended⟩
  | resume =>
      have hresumed : Calmly { st.note .resumed with paused := false } chunks :=
        ⟨h.faultless, h.early, h.silent, h.ended⟩
      exact hresumed.tells (drain_tells env _) (drainLines_fault env _ _ _)
  | cancel graceMs => exact nomatch hcalm

theorem run_calmly (env : RunEnv) (inputs : List RunInput) (hcalm : ∀ input ∈ inputs, Calm input = true)
    (hbehaves : Machine.Along (step env) Behaves (fresh env) inputs) :
    Calmly (run env inputs) (receivedChunks env inputs) := by
  induction inputs using List.reverseRecOn with
  | nil => exact .childless rfl
  | append_singleton inputs input ih =>
      obtain ⟨hbefore, hlast⟩ := List.forall_mem_append.mp hcalm
      obtain ⟨hall, hinput⟩ := Machine.along_append.mp hbehaves
      have hst := ih hbefore hall
      have hrun : run env (inputs ++ [input]) = step env (run env inputs) input :=
        Machine.run_append (step env) (fresh env) inputs [input]
      rw [receivedChunks_snoc, hrun, step]
      by_cases hcomes : ((run env inputs).fault.isSome || !(run env inputs).Admits input) = true
      · have hsame : received (run env inputs) input (receivedChunks env inputs) =
            receivedChunks env inputs := by
          unfold received
          split
          · exact if_pos hcomes
          · rfl
        rw [if_pos hcomes, hsame]
        exact hst
      · rw [if_neg hcomes]
        rw [Bool.or_eq_true, not_or, Bool.not_eq_true, Bool.not_eq_true, Option.isSome_eq_false_iff,
          Option.isNone_iff_eq_none, Bool.not_eq_false'] at hcomes
        exact handle_calmly hst (hlast input (List.mem_singleton.mpr rfl)) hinput.1 hcomes.1 hcomes.2

theorem beforeDone_of_plain {log : List RunEffect} (h : ∀ e ∈ log, e.isDone = false)
    (outcome : EngineOutcome) : beforeDone (log ++ [.done outcome]) = log := by
  unfold beforeDone
  rw [List.takeWhile_append_of_pos]
  · exact List.append_nil log
  · intro e he
    rw [h e he]
    rfl

/-- Nothing waits where nothing has come. -/
theorem Carries.empty {number : Decimal → JsNumber} (h : Carries number [] st) :
    stdoutEvents st.log = [] ∧ (splitLines newline st.stdoutBuf).1 = [] ∧
      (splitLines newline st.stdoutBuf).2 = [] := by
  obtain ⟨taken, htaken, hlines⟩ := h.told
  obtain ⟨htakenNil, hwaiting⟩ := List.append_eq_nil_iff.mp hlines.symm
  rw [htakenNil] at htaken
  exact ⟨htaken, hwaiting, h.rest.symm⟩

/-- What is told by the close, and what is lost. -/
theorem closed_events {text : JsString} {events : List JsObject} (h : Carries env.number text st)
    (hstream : streamEvents env.number text = some events) :
    stdoutEvents (st.drain env).log = events ↔ AllTold env st := by
  obtain ⟨hreadable, rfl⟩ := streamEvents_some hstream
  obtain ⟨before, hbefore, hlines⟩ := h.told
  have hwaiting : Readable env.number (splitLines newline st.stdoutBuf).1 := by
    intro line hline
    refine hreadable line (List.mem_append_left _ ?_)
    rw [hlines]
    exact List.mem_append_right _ hline
  obtain ⟨taken, hsplit, -, hevents, -, -, hleft⟩ := drain_spec st hwaiting
  have hall : (splitAll newline text).flatMap (lineEvents env.number) =
      (before.flatMap (lineEvents env.number) ++ taken.flatMap (lineEvents env.number)) ++
        ((splitLines newline (st.drain env).stdoutBuf).1.flatMap (lineEvents env.number) ++
          lineEvents env.number (splitLines newline st.stdoutBuf).2) := by
    rw [splitAll, List.flatMap_append, List.flatMap_singleton, hlines, hsplit, h.rest]
    simp only [List.flatMap_append, List.append_assoc]
  rw [hall, hevents, hbefore, eq_comm, List.append_right_eq_self, List.append_eq_nil_iff, hleft]
  exact ⟨fun hlost => ⟨hlost.1, hlost.2⟩, fun htold => ⟨htold.lines, htold.tail⟩⟩

/-- **A run that is neither cancelled nor timed out tells all the output before it ends, just when
nothing that waits at the close is lost.** -/
theorem output_told_iff (env : RunEnv) (inputs : List RunInput) (code : Option JsNumber)
    (signalled : Bool) (events : List JsObject)
    (hchild : (run env inputs).child.isSome = true)
    (hcalm : ∀ input ∈ inputs, Calm input = true)
    (hbehaves : Machine.Along (step env) Behaves (fresh env) inputs)
    (hstream : streamEvents env.number (utf8Decode (receivedChunks env inputs).flatten) = some events)
    (hchunks : streamEvents env.number (decodeChunks (receivedChunks env inputs)) = some events) :
    (run env (inputs ++ [.close code signalled])).finished = true ∧
      (stdoutEvents (beforeDone (run env (inputs ++ [.close code signalled])).log) = events ↔
        AllTold env (run env inputs)) := by
  have hreadable : Readable env.number
      (splitLines newline (decodeChunks (receivedChunks env inputs))).1 :=
    fun line hline => (streamEvents_some hchunks).1 line (List.mem_append_left _ hline)
  have hcarries := run_carries env inputs hreadable
  have hcalmly := run_calmly env inputs hcalm hbehaves
  have hended := run_ended env inputs
  have hclosed : run env (inputs ++ [.close code signalled]) =
      step env (run env inputs) (.close code signalled) :=
    Machine.run_append (step env) (fresh env) inputs [.close code signalled]
  rw [hclosed]
  generalize run env inputs = st at hchild hcarries hcalmly hended ⊢
  have hfault : st.fault = none := by
    cases hf : st.fault with
    | none => rfl
    | some fault =>
        cases fault with
        | start => exact absurd hf (hcalmly.faultless hchild)
        | callback => exact absurd hf hcarries.sound
  have hwaiting : Readable env.number (splitLines newline st.stdoutBuf).1 := by
    obtain ⟨before, -, hlines⟩ := hcarries.told
    intro line hline
    refine hreadable line ?_
    rw [hlines]
    exact List.mem_append_right _ hline
  obtain ⟨taken, -, -, -, hkept, -, -⟩ := drain_spec st hwaiting
  have hcomes : ¬ (st.fault.isSome || !st.Admits (.close code signalled)) = true := by
    rw [hfault, Admits, hchild]
    exact Bool.false_ne_true
  have hstep : step env st (.close code signalled) =
      (st.drain env).finish env (closeOutcome (st.drain env).cancelled signalled code) := by
    rw [step, if_neg hcomes]
    show st.close env code signalled = _
    rw [close, if_neg]
    rw [hkept, hfault]
    exact Bool.false_ne_true
  rw [hstep]
  obtain ⟨effects, hgrows⟩ := (drain_tells env st).grows
  by_cases hfinished : st.finished = true
  · have hnone := hcalmly.silent (hcalmly.ended hfinished)
    have hsame : (st.drain env).finish env (closeOutcome (st.drain env).cancelled signalled code) =
        st.drain env := finish_of_finished (hgrows.finished.trans hfinished) _
    rw [hnone] at hcarries hchunks
    have hdrained := closed_events hcarries hchunks
    obtain ⟨-, hlines, hrest⟩ := hcarries.empty
    have htold : AllTold env st := by
      refine ⟨?_, ?_⟩
      · intro pre line post hsplit
        rw [hlines] at hsplit
        exact absurd hsplit.symm (List.append_ne_nil_of_right_ne_nil _ (List.cons_ne_nil _ _))
      · rw [hrest]
        rfl
    obtain rfl : events = [] := by
      obtain ⟨-, rfl⟩ := streamEvents_some hchunks
      rfl
    rw [hsame]
    refine ⟨hgrows.finished.trans hfinished, iff_of_true ?_ htold⟩
    have hall := hdrained.mpr htold
    have hsub : (stdoutEvents (beforeDone (st.drain env).log)).Sublist
        (stdoutEvents (st.drain env).log) := (List.takeWhile_sublist _).filterMap _
    rw [hall] at hsub
    exact List.sublist_nil.mp hsub
  · have hunfinished : (st.drain env).finished = false :=
      hgrows.finished.trans (Bool.eq_false_iff.mpr hfinished)
    have hplain : ∀ e ∈ (st.drain env).log, e.isDone = false := by
      rw [hgrows.log]
      refine List.forall_mem_append.mpr ⟨?_, hgrows.plain⟩
      have hcount := hended.once
      rw [Bool.eq_false_iff.mpr hfinished, Bool.toNat_false, List.countP_eq_zero] at hcount
      exact fun e he => Bool.eq_false_iff.mpr (hcount e he)
    rw [finish, if_neg (by rw [hunfinished]; exact Bool.false_ne_true)]
    refine ⟨rfl, ?_⟩
    show stdoutEvents (beforeDone ((st.drain env).log ++ [.done _])) = events ↔ _
    rw [beforeDone_of_plain hplain]
    exact closed_events hcarries hchunks

end ClaudeRun

/-! ### A last line that nothing ends -/

def plainEnv : RunEnv := { timedEnv with timed := false }

def systemLine : JsString := js "\x7b\"type\":\"system\"\x7d"

/-- The child writes this and closes. -/
def outputInputs (text : JsString) : List RunInput :=
  [.start (.ok ()) (.child (some 7)), .stdout (utf8Encode text)]

def zeroClose : RunInput := .close (some (.ofInt 0)) false

theorem ended_line_told :
    (ClaudeRun.run plainEnv (outputInputs (systemLine ++ [newline]) ++ [zeroClose])).finished = true ∧
      (stdoutEvents (ClaudeRun.beforeDone (ClaudeRun.run plainEnv
          (outputInputs (systemLine ++ [newline]) ++ [zeroClose])).log) =
        (streamEvents plainEnv.number (utf8Decode (ClaudeRun.receivedChunks plainEnv
          (outputInputs (systemLine ++ [newline]))).flatten)).get (by decide +kernel) ↔
        ClaudeRun.AllTold plainEnv (ClaudeRun.run plainEnv (outputInputs (systemLine ++ [newline])))) := by
  refine ClaudeRun.output_told_iff plainEnv (outputInputs (systemLine ++ [newline])) _ _ _
    (by decide +kernel) (by decide) ⟨trivial, rfl, trivial⟩ ?_ ?_
  · exact (Option.some_get _).symm
  · rw [(decodeChunks_eq_iff _).mpr]
    · exact (Option.some_get _).symm
    · exact ⟨(fun h => nomatch h.2), trivial⟩

/-- The line has an event, and it is not told. -/
theorem last_line_lost :
    (streamEvents plainEnv.number (utf8Decode (ClaudeRun.receivedChunks plainEnv
        (outputInputs systemLine)).flatten)).map List.length = some 1 ∧
      stdoutEvents (ClaudeRun.beforeDone (ClaudeRun.run plainEnv
        (outputInputs systemLine ++ [zeroClose])).log) = [] := by
  decide +kernel

end HuginAgent
