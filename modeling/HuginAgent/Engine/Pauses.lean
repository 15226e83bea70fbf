/-
The pause contract of a run.

A pause is looked at between the lines of the output, and nowhere else.  So events are told while
the run is paused when the holder pauses inside a line that has more of them, and whenever
something comes that is no output: the child's errors, its own or a failing start.  What waits
during a pause is told after it, in order (`run_carries`).
-/
import HuginAgent.Engine.Output

namespace HuginAgent

/-! ### Logs that honour the pauses -/

/-- No event comes between a pause and the next time the run is resumed. -/
def HonoursPauses : Bool → List RunEffect → Prop
  | _, [] => True
  | paused, .event _ _ :: rest => paused = false ∧ HonoursPauses paused rest
  | _, .paused :: rest => HonoursPauses true rest
  | _, .resumed :: rest => HonoursPauses false rest
  | paused, _ :: rest => HonoursPauses paused rest

/-- Is the run paused, going by its log? -/
def pausedAfter (log : List RunEffect) (paused : Bool) : Bool :=
  log.foldl (fun paused e =>
    match e with
    | .paused => true
    | .resumed => false
    | _ => paused) paused

theorem honoursPauses_append (log more : List RunEffect) (paused : Bool) :
    HonoursPauses paused (log ++ more) ↔
      HonoursPauses paused log ∧ HonoursPauses (pausedAfter log paused) more := by
  induction log generalizing paused with
  | nil => exact (and_iff_right trivial).symm
  | cons e rest ih =>
      cases e with
      | event source ev =>
          rw [List.cons_append, HonoursPauses, HonoursPauses, ih, and_assoc]
          rfl
      | approval req => exact ih paused
      | done outcome => exact ih paused
      | signal sig => exact ih paused
      | paused => exact ih true
      | resumed => exact ih false

namespace ClaudeRun

variable {env : RunEnv} {st st' : ClaudeRun}

/-- The log says whether the run is paused, and keeps to it. -/
def Logged (st : ClaudeRun) : Prop := pausedAfter st.log false = st.paused

def Honours (st : ClaudeRun) : Prop := HonoursPauses false st.log

theorem pausedAfter_append (log more : List RunEffect) (paused : Bool) :
    pausedAfter (log ++ more) paused = pausedAfter more (pausedAfter log paused) :=
  List.foldl_append

/-- Something is noted that is neither a pause nor an event. -/
theorem Logged.silent (h : Logged st) (hlog : st'.log = st.log ∨ ∃ e, st'.log = st.log ++ [e] ∧
      e.isEvent = false ∧ e ≠ .paused ∧ e ≠ .resumed) (hpaused : st'.paused = st.paused) :
    Logged st' ∧ (Honours st → Honours st') := by
  unfold Logged Honours at *
  rcases hlog with hlog | ⟨e, hlog, hevent, hnot, hnot'⟩
  · rw [hlog, hpaused]
    exact ⟨h, id⟩
  · have hsame : pausedAfter [e] st.paused = st.paused ∧ HonoursPauses st.paused [e] := by
      cases e with
      | event source ev => exact nomatch hevent
      | approval req => exact ⟨rfl, trivial⟩
      | done outcome => exact ⟨rfl, trivial⟩
      | signal sig => exact ⟨rfl, trivial⟩
      | paused => exact absurd rfl hnot
      | resumed => exact absurd rfl hnot'
    rw [hlog, pausedAfter_append, honoursPauses_append, h, hpaused]
    exact ⟨hsame.1, fun hst => ⟨hst, hsame.2⟩⟩

/-! ### Events -/

/-- An event is told as it should be when the run is not paused. -/
theorem emit_honours (env : RunEnv) (source : EventSource) (st : ClaudeRun) (ev : JsObject)
    (hlogged : Logged st) :
    Logged (st.emit env source ev) ∧
      (Honours (st.emit env source ev) ↔ Honours st ∧ st.paused = false) := by
  unfold Logged at hlogged
  unfold emit Logged Honours
  split
  · refine ⟨?_, ?_⟩
    · show pausedAfter ((st.log ++ [_]) ++ [.paused]) false = true
      rw [pausedAfter_append]
      rfl
    · show HonoursPauses false ((st.log ++ [_]) ++ [.paused]) ↔ _
      rw [List.append_assoc, honoursPauses_append, hlogged]
      exact and_congr_right fun _ => and_iff_left trivial
  · refine ⟨?_, ?_⟩
    · show pausedAfter (st.log ++ [_]) false = st.paused
      rw [pausedAfter_append, hlogged]
      rfl
    · show HonoursPauses false (st.log ++ [_]) ↔ _
      rw [honoursPauses_append, hlogged]
      exact and_congr_right fun _ => and_iff_left trivial

/-- The holder pauses, if at all, at the last of the events. -/
def PausesLast (env : RunEnv) (count : Nat) (events : List JsObject) : Prop :=
  ∀ i, i + 1 < events.length → env.pauses (count + i) = false

theorem emitAll_honours (env : RunEnv) (st : ClaudeRun) (events : List JsObject) (hlogged : Logged st) :
    Logged (events.foldl (emit env .stdout) st) ∧
      (Honours (events.foldl (emit env .stdout) st) ↔
        Honours st ∧ (events = [] ∨ st.paused = false ∧ PausesLast env (eventCount st.log) events)) := by
  induction events generalizing st with
  | nil => exact ⟨hlogged, (and_iff_left (Or.inl rfl)).symm⟩
  | cons ev events ih =>
      obtain ⟨hlogged', hev⟩ := emit_honours env .stdout st ev hlogged
      obtain ⟨-, hcount, hpaused⟩ := emit_stdout env st ev
      obtain ⟨hall, hrest⟩ := ih (st.emit env .stdout ev) hlogged'
      refine ⟨hall, ?_⟩
      rw [List.foldl_cons, hrest, hev, hcount, hpaused, and_assoc, or_iff_right (List.cons_ne_nil _ _)]
      refine and_congr_right fun _ => ⟨?_, ?_⟩
      · rintro ⟨hunpaused, hmore⟩
        refine ⟨hunpaused, fun i hi => ?_⟩
        rw [List.length_cons] at hi
        rcases hmore with rfl | ⟨⟨-, hfirst⟩, hlast⟩
        · exact absurd hi (by rw [List.length_nil]; omega)
        · cases i with
          | zero => exact hfirst
          | succ i =>
              have hi' := hlast i (by omega)
              rw [Nat.add_assoc, Nat.add_comm 1 i] at hi'
              exact hi'
      · rintro ⟨hunpaused, hlast⟩
        refine ⟨hunpaused, ?_⟩
        cases events with
        | nil => exact Or.inl rfl
        | cons next events =>
            refine Or.inr ⟨⟨hunpaused, hlast 0 (by simp only [List.length_cons]; omega)⟩, fun i hi => ?_⟩
            have hi' := hlast (i + 1) (by rw [List.length_cons]; omega)
            rw [Nat.add_assoc, Nat.add_comm 1 i]
            exact hi'

/-- In each line that is reached the holder pauses, if at all, at the last event. -/
def PausesAtLineEnds (env : RunEnv) (st : ClaudeRun) (lines : List JsString) : Prop :=
  ∀ pre line post, lines = pre ++ line :: post → Readable env.number pre → Reaches env st pre →
    PausesLast env (eventCount st.log + (pre.flatMap (lineEvents env.number)).length)
      (lineEvents env.number line)

theorem drainLines_honours (env : RunEnv) (st : ClaudeRun) (lines : List JsString) (rest : JsString)
    (hlogged : Logged st) :
    Logged (drainLines env lines rest st) ∧
      (Honours (drainLines env lines rest st) ↔ Honours st ∧ PausesAtLineEnds env st lines) := by
  induction lines generalizing st with
  | nil =>
      refine ⟨hlogged, (and_iff_left ?_).symm⟩
      intro pre line post hsplit
      exact absurd hsplit.symm (List.append_ne_nil_of_right_ne_nil _ (List.cons_ne_nil _ _))
  | cons line lines ih =>
      rw [drainLines]
      by_cases hpaused : st.paused = true
      · rw [if_pos hpaused]
        refine ⟨hlogged, (and_iff_left ?_).symm⟩
        intro pre more post _ _ hreaches
        rw [hreaches.1] at hpaused
        exact absurd hpaused Bool.false_ne_true
      rw [if_neg hpaused]
      have hunpaused : st.paused = false := Bool.eq_false_iff.mpr hpaused
      cases hevents : claudeLineEvents env.number line with
      | none =>
          have hnone : lineEvents env.number line = [] := by
            rw [lineEvents, hevents]
            rfl
          refine ⟨hlogged, (and_iff_left ?_).symm⟩
          intro pre more post hsplit hreadable _
          cases pre with
          | nil =>
              obtain ⟨rfl, -⟩ := List.cons.inj hsplit
              rw [hnone]
              exact fun i hi => absurd hi (Nat.not_lt_zero _)
          | cons head pre =>
              obtain ⟨rfl, -⟩ := List.cons.inj hsplit
              have hline := hreadable line List.mem_cons_self
              rw [hevents] at hline
              cases hline
      | some events =>
          have hline : lineEvents env.number line = events := by
            rw [lineEvents, hevents]
            rfl
          have hreadable : (claudeLineEvents env.number line).isSome = true := by
            rw [hevents]
            rfl
          obtain ⟨hlogged', htold⟩ := emitAll_honours env st events hlogged
          obtain ⟨-, hcount, -⟩ := emitAll_stdout env st events
          obtain ⟨hall, hrest⟩ := ih (events.foldl (emit env .stdout) st) hlogged'
          refine ⟨hall, ?_⟩
          have hlast : (events = [] ∨ st.paused = false ∧ PausesLast env (eventCount st.log) events) ↔
              PausesLast env (eventCount st.log) events := by
            refine ⟨?_, fun h => Or.inr ⟨hunpaused, h⟩⟩
            rintro (rfl | h)
            · exact fun i hi => absurd hi (Nat.not_lt_zero _)
            · exact h.2
          show Honours (drainLines env lines rest (events.foldl (emit env .stdout) st)) ↔ _
          rw [hrest, htold, hlast, and_assoc]
          refine and_congr_right fun _ => ⟨?_, ?_⟩
          · rintro ⟨hfirst, hmore⟩ pre more post hsplit hpre hreaches
            cases pre with
            | nil =>
                obtain ⟨rfl, -⟩ := List.cons.inj hsplit
                rw [hline]
                exact hfirst
            | cons head pre =>
                obtain ⟨rfl, hbehind⟩ := List.cons.inj hsplit
                rw [reaches_cons, hline] at hreaches
                have hpauses := hmore pre more post hbehind
                  (fun l hl => hpre l (List.mem_cons_of_mem _ hl)) hreaches
                rw [hcount, Nat.add_assoc, ← List.length_append] at hpauses
                rw [List.flatMap_cons, hline]
                exact hpauses
          · intro h
            refine ⟨?_, ?_⟩
            · have hfirst := h [] line lines rfl (List.forall_mem_nil _)
                ⟨hunpaused, fun i hi => absurd hi (Nat.not_lt_zero i)⟩
              rw [hline] at hfirst
              exact hfirst
            · intro pre more post hsplit hpre hreaches
              rw [← hline, ← reaches_cons] at hreaches
              have hpauses := h (line :: pre) more post (by rw [hsplit]; rfl)
                (List.forall_mem_cons.mpr ⟨hreadable, hpre⟩) hreaches
              rw [List.flatMap_cons, hline] at hpauses
              rw [hcount, Nat.add_assoc, ← List.length_append]
              exact hpauses

theorem drain_honours (env : RunEnv) (st : ClaudeRun) (hlogged : Logged st) :
    Logged (st.drain env) ∧
      (Honours (st.drain env) ↔
        Honours st ∧ PausesAtLineEnds env st (splitLines newline st.stdoutBuf).1) :=
  drainLines_honours env st _ _ hlogged

/-! ### Steps -/

/-- What an input must be for the pauses to be honoured, in the state it comes in. -/
def KeepsPauses (env : RunEnv) (st : ClaudeRun) : RunInput → Prop
  | .start (.error _) _ | .bridgeStarted (.error _) _ => st.finished = false → st.paused = false
  | .bridgeFailed _ | .stderr _ | .childError _ => st.paused = false
  | .stdout chunk =>
      PausesAtLineEnds env st (splitLines newline (st.stdoutBuf ++ utf8Decode chunk)).1
  | .close _ _ => PausesAtLineEnds env st (splitLines newline st.stdoutBuf).1
  | .resume =>
      PausesAtLineEnds env { st.note .resumed with paused := false }
        (splitLines newline st.stdoutBuf).1
  | _ => True

/-- Nothing is told, and the pauses are as they were. -/
structure Hushed (st st' : ClaudeRun) : Prop where
  log : st'.log = st.log ∨ ∃ e, st'.log = st.log ++ [e] ∧ e.isEvent = false ∧ e ≠ .paused ∧ e ≠ .resumed
  paused : st'.paused = st.paused

theorem Hushed.honours (h : Hushed st st') (hlogged : Logged st) (hst : Honours st) : Honours st' :=
  (hlogged.silent h.log h.paused).2 hst

theorem Hushed.of_log (hlog : st'.log = st.log) (hpaused : st'.paused = st.paused) : Hushed st st' :=
  ⟨Or.inl hlog, hpaused⟩

theorem finish_hushed (env : RunEnv) (st : ClaudeRun) (outcome : EngineOutcome) :
    Hushed st (st.finish env outcome) := by
  unfold finish
  split
  · exact .of_log rfl rfl
  · exact ⟨Or.inr ⟨.done outcome, rfl, rfl, (fun h => nomatch h), fun h => nomatch h⟩, rfl⟩

theorem killGroup_hushed (st : ClaudeRun) (sig : RunSignal) : Hushed st (st.killGroup sig) := by
  unfold killGroup
  split
  · exact ⟨Or.inr ⟨.signal sig, rfl, rfl, (fun h => nomatch h), fun h => nomatch h⟩, rfl⟩
  · exact .of_log rfl rfl

theorem spawn_hushed (env : RunEnv) (st : ClaudeRun) (spawned : SpawnResult) :
    Hushed st (st.spawn env spawned) := by
  cases spawned with
  | throws => exact .of_log rfl rfl
  | child pid =>
      unfold spawn setTimeoutTimer
      dsimp only
      split
      · exact .of_log rfl rfl
      · exact .of_log rfl rfl

/-- What a step leaves of the pauses: they are logged, and honoured if the input keeps them. -/
def Contract (st st' : ClaudeRun) (keeps : Prop) : Prop :=
  Logged st' ∧ (Honours st → (Honours st' ↔ keeps))

theorem Hushed.contract (h : Hushed st st') (hlogged : Logged st) {keeps : Prop} (hkeeps : keeps) :
    Contract st st' keeps :=
  ⟨(hlogged.silent h.log h.paused).1, fun hst => iff_of_true (h.honours hlogged hst) hkeeps⟩

/-- A hushed step before or after. -/
theorem Contract.then {st'' : ClaudeRun} {keeps : Prop} (h : Contract st st' keeps)
    (hafter : Hushed st' st'') (hback : Honours st'' → Honours st') : Contract st st'' keeps := by
  obtain ⟨hlogged, hst'⟩ := h
  refine ⟨(hlogged.silent hafter.log hafter.paused).1, fun hst => ?_⟩
  rw [← hst' hst]
  exact ⟨hback, hafter.honours hlogged⟩

theorem Hushed.back (h : Hushed st st') (hst' : Honours st') : Honours st := by
  unfold Honours at *
  rcases h.log with hlog | ⟨e, hlog, -⟩
  · rw [hlog] at hst'
    exact hst'
  · rw [hlog, honoursPauses_append] at hst'
    exact hst'.1

theorem emit_contract (env : RunEnv) (source : EventSource) (st : ClaudeRun) (ev : JsObject)
    (hlogged : Logged st) : Contract st (st.emit env source ev) (st.paused = false) := by
  obtain ⟨hlogged', hhonours⟩ := emit_honours env source st ev hlogged
  exact ⟨hlogged', fun hst => hhonours.trans (and_iff_right hst)⟩

theorem drain_contract (env : RunEnv) (st : ClaudeRun) (hlogged : Logged st) :
    Contract st (st.drain env) (PausesAtLineEnds env st (splitLines newline st.stdoutBuf).1) := by
  obtain ⟨hlogged', hhonours⟩ := drain_honours env st hlogged
  exact ⟨hlogged', fun hst => hhonours.trans (and_iff_right hst)⟩

theorem abort_contract (env : RunEnv) (st : ClaudeRun) (ev : JsObject) (errorKind : JsString)
    (hlogged : Logged st) : Contract st (st.abort env ev errorKind) (st.paused = false) := by
  have hphase : Logged { st with phase := .ended } := hlogged
  have hfinish := finish_hushed env ({ st with phase := .ended }.emit env .engine ev)
    (.error none (some errorKind))
  exact (emit_contract env .engine { st with phase := .ended } ev hphase).then hfinish hfinish.back

/-- **What a step does to the pauses.** -/
theorem handle_contract (env : RunEnv) (st : ClaudeRun) (input : RunInput) (hlogged : Logged st) :
    Contract st (st.handle env input) (KeepsPauses env st input) := by
  cases input with
  | start worktree spawned =>
      unfold handle start
      dsimp only
      by_cases hfinished : st.finished = true
      · rw [if_pos hfinished]
        refine (Hushed.of_log rfl rfl).contract hlogged ?_
        cases worktree with
        | error e => exact fun h => absurd hfinished (Bool.eq_false_iff.mp h)
        | ok u => trivial
      · rw [if_neg hfinished]
        cases worktree with
        | error e =>
            obtain ⟨hlogged', hhonours⟩ := abort_contract env st _ (e.code.getD (js "workspace_error")) hlogged
            refine ⟨hlogged', fun hst => (hhonours hst).trans ?_⟩
            show _ ↔ (st.finished = false → st.paused = false)
            exact ⟨fun h _ => h, fun h => h (Bool.eq_false_iff.mpr hfinished)⟩
        | ok u =>
            dsimp only
            split
            · exact (Hushed.of_log rfl rfl).contract hlogged trivial
            · have hspawn := spawn_hushed env { st with worktree := true } spawned
              exact Hushed.contract ⟨hspawn.log, hspawn.paused⟩ hlogged trivial
  | bridgeFailed message => exact abort_contract env st _ _ hlogged
  | bridgeStarted config spawned =>
      unfold handle bridgeStarted
      dsimp only
      by_cases hfinished : st.finished = true
      · rw [if_pos hfinished]
        refine (Hushed.of_log rfl rfl).contract hlogged ?_
        cases config with
        | error e => exact fun h => absurd hfinished (Bool.eq_false_iff.mp h)
        | ok u => trivial
      · rw [if_neg hfinished]
        cases config with
        | error e =>
            obtain ⟨hlogged', hhonours⟩ := abort_contract env st _ (js "approval_bridge") hlogged
            refine ⟨hlogged', fun hst => (hhonours hst).trans ?_⟩
            show _ ↔ (st.finished = false → st.paused = false)
            exact ⟨fun h _ => h, fun h => h (Bool.eq_false_iff.mpr hfinished)⟩
        | ok u => exact (spawn_hushed env st spawned).contract hlogged trivial
  | stdout chunk => exact drain_contract env { st with stdoutBuf := st.stdoutBuf ++ utf8Decode chunk } hlogged
  | stderr chunk => exact emit_contract env .stderr st _ hlogged
  | childError error =>
      have hfinish := finish_hushed env (st.emit env .engine (engineError error))
        (.error none (some (js "spawn_failed")))
      exact (emit_contract env .engine st _ hlogged).then hfinish hfinish.back
  | close code signalled =>
      have hdrain := drain_contract env st hlogged
      unfold handle close
      dsimp only
      split
      · exact hdrain
      · have hfinish := finish_hushed env (st.drain env) (closeOutcome (st.drain env).cancelled signalled code)
        exact hdrain.then hfinish hfinish.back
  | timer n =>
      unfold handle fire
      dsimp only
      split
      · exact (Hushed.of_log rfl rfl).contract hlogged trivial
      · have hkill := killGroup_hushed
          { st with timers := st.timers.clear (some n), cancelled := true } .kill
        have hfinish := finish_hushed env
          ({ st with timers := st.timers.clear (some n), cancelled := true }.killGroup .kill)
          (.error none (some (js "timeout")))
        have hkilled : Contract st
            ({ st with timers := st.timers.clear (some n), cancelled := true }.killGroup .kill) True :=
          Hushed.contract ⟨hkill.log, hkill.paused⟩ hlogged trivial
        exact hkilled.then hfinish hfinish.back
      · have hkill := killGroup_hushed { st with timers := st.timers.clear (some n) } .kill
        exact Hushed.contract ⟨hkill.log, hkill.paused⟩ hlogged trivial
  | approval req =>
      unfold handle raise
      dsimp only
      split
      · have hnoted : Hushed st (st.note (.approval req)) :=
          ⟨Or.inr ⟨.approval req, rfl, rfl, (fun h => nomatch h), fun h => nomatch h⟩, rfl⟩
        exact hnoted.contract hlogged trivial
      · exact (Hushed.of_log rfl rfl).contract hlogged trivial
  | pause =>
      refine ⟨?_, fun hst => iff_of_true ?_ trivial⟩
      · show pausedAfter (st.log ++ [.paused]) false = true
        rw [pausedAfter_append]
        rfl
      · exact (honoursPauses_append _ _ _).mpr ⟨hst, trivial⟩
  | resume =>
      have hresumed : Logged { st.note .resumed with paused := false } := by
        show pausedAfter (st.log ++ [.resumed]) false = false
        rw [pausedAfter_append]
        rfl
      obtain ⟨hlogged', hhonours⟩ := drain_contract env { st.note .resumed with paused := false } hresumed
      exact ⟨hlogged', fun hst => hhonours ((honoursPauses_append _ _ _).mpr ⟨hst, trivial⟩)⟩
  | cancel graceMs =>
      unfold handle cancel
      dsimp only
      split
      · have hfinish := finish_hushed env { st with cancelled := true } .cancelled
        exact Hushed.contract ⟨hfinish.log, hfinish.paused⟩ hlogged trivial
      · have hkill := killGroup_hushed { st with cancelled := true } .term
        exact Hushed.contract ⟨hkill.log, hkill.paused⟩ hlogged trivial

/-- **A run honours the pauses of its holder just when each input keeps them; and what waits in a
pause is told after it, in order.** -/
theorem pauses_honoured_iff (env : RunEnv) (inputs : List RunInput) :
    ((∀ pre post, inputs = pre ++ post → HonoursPauses false (run env pre).log) ↔
        Machine.Along (step env)
          (fun st input => st.fault = none → st.Admits input = true → KeepsPauses env st input)
          (fresh env) inputs) ∧
      (Readable env.number (splitLines newline (decodeChunks (receivedChunks env inputs))).1 →
        Carries env.number (decodeChunks (receivedChunks env inputs)) (run env inputs)) := by
  refine ⟨Machine.always_iff (J := Logged) (I := Honours) ?_ ?_ rfl trivial, run_carries env inputs⟩
  · intro st input hlogged
    unfold step
    split
    · exact hlogged
    · exact (handle_contract env st input hlogged).1
  · intro st input hlogged hst
    unfold step
    by_cases hcomes : (st.fault.isSome || !st.Admits input) = true
    · rw [if_pos hcomes]
      refine iff_of_true hst ?_
      intro hfault hadmits
      rw [hfault, hadmits] at hcomes
      exact absurd hcomes Bool.false_ne_true
    · rw [if_neg hcomes]
      rw [Bool.or_eq_true, not_or, Bool.not_eq_true, Bool.not_eq_true, Option.isSome_eq_false_iff,
        Option.isNone_iff_eq_none, Bool.not_eq_false'] at hcomes
      rw [(handle_contract env st input hlogged).2 hst]
      exact ⟨fun h _ _ => h, fun h => h hcomes.1 hcomes.2⟩

end ClaudeRun

/-! ### An error of the child in a pause -/

/-- The child writes to its error output while the run is paused. -/
def pausedInputs : List RunInput :=
  [.start (.ok ()) (.child (some 7)), .pause, .stderr (utf8Encode (js "warning"))]

theorem paused_output_told :
    ¬ ∀ pre post, pausedInputs = pre ++ post →
      HonoursPauses false (ClaudeRun.run plainEnv pre).log := by
  intro h
  have hlog : (ClaudeRun.run plainEnv pausedInputs).log =
      [.paused, .event .stderr (stderrChunk (utf8Decode (utf8Encode (js "warning"))))] := rfl
  have hhonours := h pausedInputs [] rfl
  rw [hlog] at hhonours
  exact Bool.false_ne_true hhonours.1.symm

theorem pauses_kept_sample :
    ((∀ pre post, pausedInputs = pre ++ post →
          HonoursPauses false (ClaudeRun.run plainEnv pre).log) ↔
        Machine.Along (ClaudeRun.step plainEnv)
          (fun st input => st.fault = none → st.Admits input = true →
            ClaudeRun.KeepsPauses plainEnv st input)
          (ClaudeRun.fresh plainEnv) pausedInputs) ∧
      ClaudeRun.Carries plainEnv.number
        (decodeChunks (ClaudeRun.receivedChunks plainEnv pausedInputs))
        (ClaudeRun.run plainEnv pausedInputs) := by
  obtain ⟨hiff, hcarries⟩ := ClaudeRun.pauses_honoured_iff plainEnv pausedInputs
  exact ⟨hiff, hcarries (List.forall_mem_nil _)⟩

end HuginAgent
