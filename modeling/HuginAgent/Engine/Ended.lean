/-
After the end of a run.

A run ends once.  But its end does not cut it off from its child: when the timeout or an error
ends it, what is still in the pipes comes all the same, and the callbacks do not look whether the
run has ended.  They tell of it unless there is nothing to tell (`ended_quiet_iff`).  The requests
for approval stop with the bridge.
-/
import HuginAgent.Engine.Claude

namespace HuginAgent

/-! ### Quiet logs -/

/-- Nothing of a kind comes after the end. -/
def NoneAfterDone (p : RunEffect → Bool) (log : List RunEffect) : Prop :=
  ∀ pre outcome post, log = pre ++ .done outcome :: post → ∀ e ∈ post, p e = false

/-- No event and no request comes after the end. -/
def QuietAfterDone (log : List RunEffect) : Prop := NoneAfterDone RunEffect.isHeard log

variable {p : RunEffect → Bool}

theorem noneAfterDone_of_not_done {log ending : List RunEffect} (h : ∀ e ∈ log, e.isDone = false)
    (hending : ending = [] ∨ ∃ outcome, ending = [.done outcome]) :
    NoneAfterDone p (log ++ ending) := by
  intro pre outcome post hsplit
  rcases hending with rfl | ⟨outcome', rfl⟩
  · rw [List.append_nil] at hsplit
    have hdone := h (.done outcome) (by rw [hsplit]; exact List.mem_append_right _ List.mem_cons_self)
    exact nomatch hdone
  · rcases List.eq_nil_or_concat post with rfl | ⟨init, last, rfl⟩
    · exact List.forall_mem_nil _
    · rw [List.concat_eq_append, ← List.cons_append, ← List.append_assoc] at hsplit
      obtain ⟨hlog, -⟩ := List.append_inj' hsplit rfl
      have hdone := h (.done outcome) (by rw [hlog]; exact List.mem_append_right _ List.mem_cons_self)
      exact nomatch hdone

theorem noneAfterDone_append_iff {log more : List RunEffect} (hlog : NoneAfterDone p log)
    (hdone : ∃ e ∈ log, e.isDone = true) :
    NoneAfterDone p (log ++ more) ↔ ∀ e ∈ more, p e = false := by
  obtain ⟨e, he, hisDone⟩ := hdone
  obtain ⟨pre, post, rfl⟩ := List.append_of_mem he
  cases e with
  | done outcome =>
      constructor
      · intro h e hmem
        refine h pre outcome (post ++ more) ?_ e (List.mem_append_right _ hmem)
        rw [List.append_assoc, List.cons_append]
      · intro h pre' outcome' post' hsplit e hmem
        rcases List.append_eq_append_iff.mp hsplit with ⟨mid, hpre, hmore⟩ | ⟨mid, hleft, hright⟩
        · have hin : e ∈ more := by
            rw [hmore]
            exact List.mem_append_right _ (List.mem_cons_of_mem _ hmem)
          exact h e hin
        · cases mid with
          | nil =>
              have hin : e ∈ more := by
                rw [List.nil_append] at hright
                rw [← hright]
                exact List.mem_cons_of_mem _ hmem
              exact h e hin
          | cons head mid =>
              rw [List.cons_append] at hright
              obtain ⟨rfl, rfl⟩ := List.cons.inj hright
              rcases List.mem_append.mp hmem with hmem | hmem
              · exact hlog pre' outcome' mid hleft e hmem
              · exact h e hmem
  | event source ev => exact nomatch hisDone
  | approval req => exact nomatch hisDone
  | signal sig => exact nomatch hisDone
  | paused => exact nomatch hisDone
  | resumed => exact nomatch hisDone

namespace ClaudeRun

/-! ### What is told -/

/-- Only events are told and pauses taken, and the buffer may be read. -/
def Tells (st st' : ClaudeRun) : Prop :=
  ∃ effects, (∀ e ∈ effects, e.isDone = false ∧ e.isSignal = false) ∧
    st' = { st with
      log := st.log ++ effects
      paused := st'.paused
      stdoutBuf := st'.stdoutBuf
      fault := st'.fault }

variable {env : RunEnv} {st st' st'' : ClaudeRun}

theorem Tells.refl (st : ClaudeRun) : Tells st st :=
  ⟨[], List.forall_mem_nil _, by rw [List.append_nil]⟩

theorem Tells.trans (h : Tells st st') (h' : Tells st' st'') : Tells st st'' := by
  obtain ⟨effects, hplain, hst'⟩ := h
  obtain ⟨effects', hplain', hst''⟩ := h'
  refine ⟨effects ++ effects', List.forall_mem_append.mpr ⟨hplain, hplain'⟩, ?_⟩
  rw [hst'', hst']
  simp only [List.append_assoc]

theorem Tells.log (h : Tells st st') :
    ∃ effects, (∀ e ∈ effects, e.isDone = false ∧ e.isSignal = false) ∧
      st'.log = st.log ++ effects := by
  obtain ⟨effects, hplain, hst'⟩ := h
  exact ⟨effects, hplain, by rw [hst']⟩

theorem emit_tells (env : RunEnv) (source : EventSource) (st : ClaudeRun) (ev : JsObject) :
    Tells st (st.emit env source ev) ∧
      ∃ more, (st.emit env source ev).log = st.log ++ .event source ev :: more := by
  unfold emit
  split
  · refine ⟨⟨[.event source ev, .paused], ?_, ?_⟩, [.paused], ?_⟩
    · exact List.forall_mem_cons.mpr ⟨⟨rfl, rfl⟩, List.forall_mem_singleton.mpr ⟨rfl, rfl⟩⟩
    · simp only [pause, note, List.append_assoc, List.cons_append, List.nil_append]
    · simp only [pause, note, List.append_assoc, List.cons_append, List.nil_append]
  · exact ⟨⟨[.event source ev], List.forall_mem_singleton.mpr ⟨rfl, rfl⟩, rfl⟩, [], rfl⟩

theorem emitAll_tells (env : RunEnv) (source : EventSource) (st : ClaudeRun) (events : List JsObject) :
    Tells st (events.foldl (emit env source) st) := by
  induction events generalizing st with
  | nil => exact Tells.refl st
  | cons ev rest ih => exact (emit_tells env source st ev).1.trans (ih _)

theorem drainLines_tells (env : RunEnv) (lines : List JsString) (rest : JsString) (st : ClaudeRun) :
    Tells st (drainLines env lines rest st) := by
  induction lines generalizing st with
  | nil => exact ⟨[], List.forall_mem_nil _, by rw [drainLines, List.append_nil]⟩
  | cons line lines ih =>
      rw [drainLines]
      split
      · exact ⟨[], List.forall_mem_nil _, by rw [List.append_nil]⟩
      · split
        · exact ⟨[], List.forall_mem_nil _, by rw [List.append_nil]⟩
        · exact (emitAll_tells env .stdout st _).trans (ih _)

theorem drain_tells (env : RunEnv) (st : ClaudeRun) : Tells st (st.drain env) :=
  drainLines_tells env _ _ st

/-- The lines say nothing, up to one that cannot be read. -/
def LinesSilent (number : Decimal → JsNumber) : List JsString → Prop
  | [] => True
  | line :: lines =>
      match claudeLineEvents number line with
      | none => True
      | some events => events = [] ∧ LinesSilent number lines

theorem Tells.not_silent {effects : List RunEffect} (h : Tells st st') {e : RunEffect}
    {more : List RunEffect} {base : ClaudeRun} (hst : st.log = base.log ++ e :: more)
    (hlog : st'.log = base.log ++ effects) : e ∈ effects := by
  obtain ⟨told, -, htold⟩ := h.log
  rw [htold, hst, List.append_assoc, List.append_cancel_left_eq] at hlog
  rw [← hlog]
  exact List.mem_cons_self

theorem drainLines_heard (lines : List JsString) (rest : JsString) {effects : List RunEffect}
    (hlog : (drainLines env lines rest st).log = st.log ++ effects) :
    (∀ e ∈ effects, e.isHeard = false) ↔ st.paused = true ∨ LinesSilent env.number lines := by
  induction lines generalizing st effects with
  | nil =>
      have hnil : effects = [] := List.append_right_eq_self.mp hlog.symm
      rw [hnil]
      exact iff_of_true (List.forall_mem_nil _) (Or.inr trivial)
  | cons line lines ih =>
      rw [drainLines] at hlog
      by_cases hpaused : st.paused = true
      · rw [if_pos hpaused] at hlog
        have hnil : effects = [] := List.append_right_eq_self.mp hlog.symm
        rw [hnil]
        exact iff_of_true (List.forall_mem_nil _) (Or.inl hpaused)
      rw [if_neg hpaused] at hlog
      rw [or_iff_right hpaused, LinesSilent]
      cases hevents : claudeLineEvents env.number line with
      | none =>
          rw [hevents] at hlog
          have hnil : effects = [] := List.append_right_eq_self.mp hlog.symm
          rw [hnil]
          exact iff_of_true (List.forall_mem_nil _) trivial
      | some events =>
          rw [hevents] at hlog
          cases events with
          | nil =>
              have hrest : (∀ e ∈ effects, e.isHeard = false) ↔
                  st.paused = true ∨ LinesSilent env.number lines := ih hlog
              rw [hrest, or_iff_right hpaused]
              exact (and_iff_right rfl).symm
          | cons ev events =>
              obtain ⟨-, more, hmore⟩ := emit_tells env .stdout st ev
              have hrest := (emitAll_tells env .stdout (st.emit env .stdout ev) events).trans
                (drainLines_tells env lines rest _)
              have hev := hrest.not_silent hmore hlog
              refine iff_of_false ?_ fun h => nomatch h.1
              exact fun hall => Bool.false_ne_true (hall _ hev).symm

theorem drain_heard (st : ClaudeRun) {effects : List RunEffect}
    (hlog : (st.drain env).log = st.log ++ effects) :
    (∀ e ∈ effects, e.isHeard = false) ↔
      st.paused = true ∨ LinesSilent env.number (splitLines newline st.stdoutBuf).1 :=
  drainLines_heard _ _ hlog

/-! ### What a step does -/

/-- The log grows, but for the end. -/
structure Grows (st : ClaudeRun) (effects : List RunEffect) (st' : ClaudeRun) : Prop where
  log : st'.log = st.log ++ effects
  plain : ∀ e ∈ effects, e.isDone = false
  finished : st'.finished = st.finished
  bridgeOpen : st'.bridgeOpen = st.bridgeOpen

theorem Grows.refl (h : st'.log = st.log ∧ st'.finished = st.finished ∧ st'.bridgeOpen = st.bridgeOpen) :
    Grows st [] st' :=
  ⟨by rw [h.1, List.append_nil], List.forall_mem_nil _, h.2.1, h.2.2⟩

theorem Grows.snoc {e : RunEffect} (he : e.isDone = false) (hlog : st'.log = st.log ++ [e])
    (hfinished : st'.finished = st.finished) (hopen : st'.bridgeOpen = st.bridgeOpen) :
    Grows st [e] st' :=
  ⟨hlog, List.forall_mem_singleton.mpr he, hfinished, hopen⟩

theorem Tells.grows (h : Tells st st') : ∃ effects, Grows st effects st' := by
  obtain ⟨effects, hplain, hst'⟩ := h
  refine ⟨effects, ?_, fun e he => (hplain e he).1, ?_, ?_⟩ <;> rw [hst']

theorem killGroup_grows (st : ClaudeRun) (sig : RunSignal) :
    ∃ effects, Grows st effects (st.killGroup sig) := by
  unfold killGroup
  split
  · exact ⟨_, .snoc rfl rfl rfl rfl⟩
  · exact ⟨[], .refl ⟨rfl, rfl, rfl⟩⟩

theorem Grows.trans {effects effects' : List RunEffect} (h : Grows st effects st')
    (h' : Grows st' effects' st'') : Grows st (effects ++ effects') st'' :=
  ⟨by rw [h'.log, h.log, List.append_assoc], List.forall_mem_append.mpr ⟨h.plain, h'.plain⟩,
    h'.finished.trans h.finished, h'.bridgeOpen.trans h.bridgeOpen⟩

theorem spawn_grows (env : RunEnv) (st : ClaudeRun) (spawned : SpawnResult) :
    Grows st [] (st.spawn env spawned) := by
  cases spawned with
  | throws => exact .refl ⟨rfl, rfl, rfl⟩
  | child pid =>
      refine .refl ?_
      unfold spawn setTimeoutTimer
      dsimp only
      split
      · exact ⟨rfl, rfl, rfl⟩
      · exact ⟨rfl, rfl, rfl⟩

/-- A state that differs in what nobody sees. -/
theorem Grows.of_same {effects : List RunEffect} (h : Grows st' effects st'')
    (hsame : st'.log = st.log ∧ st'.finished = st.finished ∧ st'.bridgeOpen = st.bridgeOpen) :
    Grows st effects st'' :=
  (Grows.refl hsame).trans h

/-- A step that ends the run does so last. -/
def Steps (env : RunEnv) (st st' : ClaudeRun) : Prop :=
  ∃ effects mid, Grows st effects mid ∧ (st' = mid ∨ ∃ outcome, st' = mid.finish env outcome)

theorem Grows.stays {effects : List RunEffect} (h : Grows st effects st') : Steps env st st' :=
  ⟨effects, st', h, Or.inl rfl⟩

theorem Grows.ends {effects : List RunEffect} (h : Grows st effects st') (outcome : EngineOutcome) :
    Steps env st (st'.finish env outcome) :=
  ⟨effects, st', h, Or.inr ⟨outcome, rfl⟩⟩

theorem Steps.same (h : st'.log = st.log ∧ st'.finished = st.finished ∧ st'.bridgeOpen = st.bridgeOpen) :
    Steps env st st' :=
  (Grows.refl h).stays

theorem abort_steps (env : RunEnv) (st : ClaudeRun) (ev : JsObject) (errorKind : JsString) :
    Steps env st (st.abort env ev errorKind) := by
  obtain ⟨effects, hgrows⟩ := (emit_tells env .engine { st with phase := .ended } ev).1.grows
  have hsame : Grows st effects ({ st with phase := .ended }.emit env .engine ev) :=
    hgrows.of_same ⟨rfl, rfl, rfl⟩
  exact hsame.ends _

theorem handle_steps (env : RunEnv) (st : ClaudeRun) (input : RunInput) :
    Steps env st (st.handle env input) := by
  cases input with
  | start worktree spawned =>
      unfold handle start
      dsimp only
      split
      · exact .same ⟨rfl, rfl, rfl⟩
      · split
        · exact abort_steps _ _ _ _
        · split
          · exact .same ⟨rfl, rfl, rfl⟩
          · have hgrows : Grows st [] ({ st with worktree := true }.spawn env spawned) :=
              (spawn_grows env _ spawned).of_same ⟨rfl, rfl, rfl⟩
            exact hgrows.stays
  | bridgeFailed message => exact abort_steps _ _ _ _
  | bridgeStarted config spawned =>
      unfold handle bridgeStarted
      dsimp only
      split
      · exact .same ⟨rfl, rfl, rfl⟩
      · split
        · exact abort_steps _ _ _ _
        · exact (spawn_grows env st spawned).stays
  | stdout chunk =>
      obtain ⟨effects, hgrows⟩ :=
        (drain_tells env { st with stdoutBuf := st.stdoutBuf ++ utf8Decode chunk }).grows
      have hsame : Grows st effects (st.stdoutData env chunk) := hgrows.of_same ⟨rfl, rfl, rfl⟩
      exact hsame.stays
  | stderr chunk =>
      obtain ⟨effects, hgrows⟩ := (emit_tells env .stderr st (stderrChunk (utf8Decode chunk))).1.grows
      exact hgrows.stays
  | childError error =>
      obtain ⟨effects, hgrows⟩ := (emit_tells env .engine st (engineError error)).1.grows
      exact hgrows.ends _
  | close code signalled =>
      obtain ⟨effects, hgrows⟩ := (drain_tells env st).grows
      unfold handle close
      dsimp only
      split
      · exact hgrows.stays
      · exact hgrows.ends _
  | timer n =>
      unfold handle fire
      dsimp only
      split
      · exact .same ⟨rfl, rfl, rfl⟩
      · obtain ⟨effects, hgrows⟩ := killGroup_grows
          { st with timers := st.timers.clear (some n), cancelled := true } .kill
        have hsame : Grows st effects ({ st with
            timers := st.timers.clear (some n), cancelled := true }.killGroup .kill) :=
          hgrows.of_same ⟨rfl, rfl, rfl⟩
        exact hsame.ends _
      · obtain ⟨effects, hgrows⟩ := killGroup_grows { st with timers := st.timers.clear (some n) } .kill
        have hsame : Grows st effects ({ st with timers := st.timers.clear (some n) }.killGroup .kill) :=
          hgrows.of_same ⟨rfl, rfl, rfl⟩
        exact hsame.stays
  | approval req =>
      unfold handle raise
      dsimp only
      split
      · have hraised : Grows st [.approval req] (st.note (.approval req)) := .snoc rfl rfl rfl rfl
        exact hraised.stays
      · exact .same ⟨rfl, rfl, rfl⟩
  | pause =>
      have hpaused : Grows st [.paused] st.pause := .snoc rfl rfl rfl rfl
      exact hpaused.stays
  | resume =>
      obtain ⟨effects, hgrows⟩ := (drain_tells env { st.note .resumed with paused := false }).grows
      have hresumed : Grows st [.resumed] { st.note .resumed with paused := false } :=
        .snoc rfl rfl rfl rfl
      exact (hresumed.trans hgrows).stays
  | cancel graceMs =>
      unfold handle cancel
      dsimp only
      split
      · have hsame : Grows st [] { st with cancelled := true } := .refl ⟨rfl, rfl, rfl⟩
        exact hsame.ends _
      · obtain ⟨effects, hgrows⟩ := killGroup_grows { st with cancelled := true } .term
        have hsame : Grows st effects ({ st with cancelled := true }.killGroup .term) :=
          hgrows.of_same ⟨rfl, rfl, rfl⟩
        have hset : Grows ({ st with cancelled := true }.killGroup .term) []
            ({ st with cancelled := true }.killGroup .term).setKillTimer := .refl ⟨rfl, rfl, rfl⟩
        exact (hsame.trans hset).stays

/-! ### Runs -/

/-- What the end of a run leaves. -/
structure Ended (st : ClaudeRun) : Prop where
  once : st.log.countP RunEffect.isDone = st.finished.toNat
  closed : st.finished = true → st.bridgeOpen = false

/-- Is there nothing to tell when this comes?  A line of the output that cannot be read ends the
process, so what is behind it is not told either. -/
def Silent (env : RunEnv) (st : ClaudeRun) : RunInput → Prop
  | .stdout chunk =>
      st.paused = true ∨
        LinesSilent env.number (splitLines newline (st.stdoutBuf ++ utf8Decode chunk)).1
  | .close _ _ =>
      st.paused = true ∨ LinesSilent env.number (splitLines newline st.stdoutBuf).1
  | .resume => LinesSilent env.number (splitLines newline st.stdoutBuf).1
  | .stderr _ | .childError _ | .bridgeFailed _ => False
  | _ => True

theorem countP_of_plain {effects : List RunEffect} (h : ∀ e ∈ effects, e.isDone = false) :
    effects.countP RunEffect.isDone = 0 :=
  List.countP_eq_zero.mpr fun e he => by rw [h e he]; exact Bool.false_ne_true

theorem Steps.ended (h : Steps env st st') (hst : Ended st) : Ended st' := by
  obtain ⟨effects, mid, hgrows, hst'⟩ := h
  have hmid : Ended mid := by
    refine ⟨?_, ?_⟩
    · rw [hgrows.log, hgrows.finished, List.countP_append, countP_of_plain hgrows.plain, hst.once]
      rfl
    · rw [hgrows.finished, hgrows.bridgeOpen]
      exact hst.closed
  rcases hst' with rfl | ⟨outcome, rfl⟩
  · exact hmid
  · unfold finish
    split
    · exact hmid
    · rename_i hfinished
      refine ⟨?_, fun _ => rfl⟩
      show (mid.log ++ [RunEffect.done outcome]).countP RunEffect.isDone = 1
      rw [List.countP_append, hmid.once, Bool.eq_false_iff.mpr hfinished]
      rfl

theorem ended_step (env : RunEnv) (st : ClaudeRun) (input : RunInput) (h : Ended st) :
    Ended (step env st input) := by
  unfold step
  split
  · exact h
  · exact (handle_steps env st input).ended h

theorem fresh_ended (env : RunEnv) : Ended (fresh env) := ⟨rfl, fun h => nomatch h⟩

theorem run_ended (env : RunEnv) (inputs : List RunInput) : Ended (run env inputs) :=
  Machine.run_invariant_all (step env) (ended_step env) (fresh_ended env) inputs

/-- Before its end a run does what it likes. -/
theorem Steps.unended (h : Steps env st st') (hst : Ended st) (hfinished : st.finished = false) :
    NoneAfterDone p st'.log := by
  obtain ⟨effects, mid, hgrows, hst'⟩ := h
  have hplain : ∀ e ∈ mid.log, e.isDone = false := by
    rw [hgrows.log]
    refine List.forall_mem_append.mpr ⟨?_, hgrows.plain⟩
    have hcount := hst.once
    rw [hfinished, Bool.toNat_false, List.countP_eq_zero] at hcount
    exact fun e he => Bool.eq_false_iff.mpr (hcount e he)
  rcases hst' with rfl | ⟨outcome, rfl⟩
  · have hnone : NoneAfterDone p (st'.log ++ []) := noneAfterDone_of_not_done hplain (Or.inl rfl)
    rw [List.append_nil] at hnone
    exact hnone
  · unfold finish
    split
    · have hnone : NoneAfterDone p (mid.log ++ []) := noneAfterDone_of_not_done hplain (Or.inl rfl)
      rw [List.append_nil] at hnone
      exact hnone
    · exact noneAfterDone_of_not_done hplain (Or.inr ⟨outcome, rfl⟩)

theorem finish_of_finished (h : st.finished = true) (outcome : EngineOutcome) :
    st.finish env outcome = st := if_pos h

theorem heard_of_nil {effects : List RunEffect} (h : st.log = st.log ++ effects) :
    ∀ e ∈ effects, e.isHeard = false := by
  rw [List.append_right_eq_self.mp h.symm]
  exact List.forall_mem_nil _

theorem not_silent_of_event {log more effects : List RunEffect} {source : EventSource} {ev : JsObject}
    (h : log ++ .event source ev :: more = log ++ effects) :
    ¬ ∀ e ∈ effects, e.isHeard = false := by
  intro hall
  rw [← List.append_cancel_left h] at hall
  exact Bool.false_ne_true (hall _ List.mem_cons_self).symm

theorem abort_heard (hfinished : st.finished = true) {ev : JsObject} {errorKind : JsString}
    {effects : List RunEffect} (hlog : (st.abort env ev errorKind).log = st.log ++ effects) :
    ¬ ∀ e ∈ effects, e.isHeard = false := by
  obtain ⟨htells, more, hmore⟩ := emit_tells env .engine { st with phase := .ended } ev
  obtain ⟨told, hgrows⟩ := htells.grows
  unfold abort at hlog
  rw [finish_of_finished (hgrows.finished.trans hfinished), hmore] at hlog
  exact not_silent_of_event hlog

theorem killGroup_heard {sig : RunSignal} {effects : List RunEffect}
    (hlog : (st.killGroup sig).log = st.log ++ effects) : ∀ e ∈ effects, e.isHeard = false := by
  unfold killGroup at hlog
  split at hlog
  · rw [← List.append_cancel_left hlog]
    exact List.forall_mem_singleton.mpr rfl
  · exact heard_of_nil hlog

/-- After its end a run tells of what comes, if there is something to tell. -/
theorem handle_heard (hst : Ended st) (hfinished : st.finished = true) (input : RunInput)
    {effects : List RunEffect} (hlog : (st.handle env input).log = st.log ++ effects) :
    (∀ e ∈ effects, e.isHeard = false) ↔ Silent env st input := by
  cases input with
  | start worktree spawned =>
      unfold handle start at hlog
      dsimp only at hlog
      rw [if_pos hfinished] at hlog
      exact iff_of_true (heard_of_nil hlog) trivial
  | bridgeFailed message => exact iff_of_false (abort_heard hfinished hlog) id
  | bridgeStarted config spawned =>
      unfold handle bridgeStarted at hlog
      dsimp only at hlog
      rw [if_pos hfinished] at hlog
      exact iff_of_true (heard_of_nil hlog) trivial
  | stdout chunk => exact drain_heard { st with stdoutBuf := st.stdoutBuf ++ utf8Decode chunk } hlog
  | stderr chunk =>
      obtain ⟨-, more, hmore⟩ := emit_tells env .stderr st (stderrChunk (utf8Decode chunk))
      unfold handle stderrData at hlog
      dsimp only at hlog
      rw [hmore] at hlog
      exact iff_of_false (not_silent_of_event hlog) id
  | childError error =>
      obtain ⟨htells, more, hmore⟩ := emit_tells env .engine st (engineError error)
      obtain ⟨told, hgrows⟩ := htells.grows
      unfold handle childError at hlog
      dsimp only at hlog
      rw [finish_of_finished (hgrows.finished.trans hfinished), hmore] at hlog
      exact iff_of_false (not_silent_of_event hlog) id
  | close code signalled =>
      obtain ⟨told, hgrows⟩ := (drain_tells env st).grows
      unfold handle close at hlog
      dsimp only at hlog
      rw [finish_of_finished (hgrows.finished.trans hfinished), ite_self] at hlog
      exact drain_heard st hlog
  | timer n =>
      refine iff_of_true ?_ trivial
      unfold handle fire at hlog
      dsimp only at hlog
      split at hlog
      · exact heard_of_nil hlog
      · obtain ⟨told, hgrows⟩ := killGroup_grows
          { st with timers := st.timers.clear (some n), cancelled := true } .kill
        rw [finish_of_finished (hgrows.finished.trans hfinished)] at hlog
        exact killGroup_heard hlog
      · exact killGroup_heard hlog
  | approval req =>
      refine iff_of_true ?_ trivial
      unfold handle raise at hlog
      dsimp only at hlog
      rw [hst.closed hfinished, if_neg Bool.false_ne_true] at hlog
      exact heard_of_nil hlog
  | pause =>
      refine iff_of_true ?_ trivial
      have hpaused : st.log ++ [.paused] = st.log ++ effects := hlog
      rw [← List.append_cancel_left hpaused]
      exact List.forall_mem_singleton.mpr rfl
  | resume =>
      obtain ⟨told, -, htold⟩ := (drain_tells env { st.note .resumed with paused := false }).log
      have hresumed : (st.log ++ [.resumed]) ++ told = st.log ++ effects := htold.symm.trans hlog
      rw [List.append_assoc, List.append_cancel_left_eq] at hresumed
      have hheard := drain_heard { st.note .resumed with paused := false } htold
      rw [← hresumed, List.singleton_append, List.forall_mem_cons, hheard]
      exact (and_iff_right rfl).trans (or_iff_right Bool.false_ne_true)
  | cancel graceMs =>
      refine iff_of_true ?_ trivial
      unfold handle cancel at hlog
      dsimp only at hlog
      have hends : (st.child.isNone || st.finished) = true := by rw [hfinished, Bool.or_true]
      have hsame : { st with cancelled := true }.finish env .cancelled = { st with cancelled := true } :=
        if_pos hfinished
      rw [if_pos hends, hsame] at hlog
      exact heard_of_nil hlog

/-- What comes after the end leaves the log quiet just when there is nothing to tell. -/
theorem quiet_step_iff (hst : Ended st) (hquiet : QuietAfterDone st.log) (input : RunInput) :
    QuietAfterDone (step env st input).log ↔
      (st.finished = true → st.fault = none → st.Admits input = true → Silent env st input) := by
  unfold step
  by_cases hcomes : (st.fault.isSome || !st.Admits input) = true
  · rw [if_pos hcomes]
    refine iff_of_true hquiet ?_
    intro _ hfault hadmits
    rw [hfault, hadmits] at hcomes
    exact absurd hcomes Bool.false_ne_true
  rw [if_neg hcomes]
  rw [Bool.or_eq_true, not_or, Bool.not_eq_true, Bool.not_eq_true, Option.isSome_eq_false_iff,
    Option.isNone_iff_eq_none, Bool.not_eq_false'] at hcomes
  obtain ⟨hfault, hadmits⟩ := hcomes
  by_cases hfinished : st.finished = true
  · obtain ⟨effects, mid, hgrows, hst'⟩ := handle_steps env st input
    have hmid : st.handle env input = mid := by
      rcases hst' with h | ⟨outcome, h⟩
      · exact h
      · exact h.trans (finish_of_finished (hgrows.finished.trans hfinished) outcome)
    have hdone : ∃ e ∈ st.log, e.isDone = true := by
      have hcount := hst.once
      rw [hfinished] at hcount
      exact List.countP_pos_iff.mp (by rw [hcount]; exact Nat.one_pos)
    have hlog : (st.handle env input).log = st.log ++ effects := by rw [hmid, hgrows.log]
    rw [hlog, QuietAfterDone, noneAfterDone_append_iff hquiet hdone,
      handle_heard hst hfinished input hlog]
    exact ⟨fun h _ _ _ => h, fun h => h hfinished hfault hadmits⟩
  · refine iff_of_true ?_ fun h => absurd h hfinished
    exact (handle_steps env st input).unended hst (Bool.eq_false_iff.mpr hfinished)

/-- **A run ends at most once, and is quiet from there on just when nothing comes that there is
something to tell of.** -/
theorem ended_quiet_iff (env : RunEnv) (inputs : List RunInput) :
    (run env inputs).log.countP RunEffect.isDone ≤ 1 ∧
      ((∀ pre post, inputs = pre ++ post → QuietAfterDone (run env pre).log) ↔
        Machine.Along (step env)
          (fun st input => st.finished = true → st.fault = none → st.Admits input = true →
            Silent env st input) (fresh env) inputs) := by
  constructor
  · rw [(run_ended env inputs).once]
    exact Bool.toNat_le _
  · refine Machine.always_iff (J := Ended) (I := fun st => QuietAfterDone st.log) (ended_step env)
      ?_ (fresh_ended env) ?_
    · exact fun st input hst hquiet => quiet_step_iff hst hquiet input
    · exact noneAfterDone_of_not_done (List.forall_mem_nil _) (Or.inl rfl)

end ClaudeRun

/-! ### Output after a timeout -/

def timedEnv : RunEnv where
  number := .finite
  pauses _ := false
  timed := true
  bridged := false
  worktreeGoes := true
  runDirGoes := true

/-- The child has written something when the timeout kills it. -/
def timeoutInputs : List RunInput :=
  [.start (.ok ()) (.child (some 7)), .timer 0, .stderr (utf8Encode (js "late"))]

theorem output_after_timeout : ¬ QuietAfterDone (ClaudeRun.run timedEnv timeoutInputs).log := by
  intro h
  have hlog : (ClaudeRun.run timedEnv timeoutInputs).log =
      [.signal .kill] ++ .done (.error none (some (js "timeout"))) ::
        [.event .stderr (stderrChunk (utf8Decode (utf8Encode (js "late"))))] := rfl
  exact Bool.false_ne_true (h _ _ _ hlog _ List.mem_cons_self).symm

end HuginAgent
