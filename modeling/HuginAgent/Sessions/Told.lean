/-
The output of a resumed session, from the bytes of the child to the events.

Every line that is complete is read at once, and its events are told or, in a pause, kept.  So
what has been told and what is kept are together the events of the lines that were read, in order,
and each step keeps that.  When the run is resumed what is kept is told first, and a pause in the
course keeps the rest.

Which events are kept is a matter of the line: those behind one in whose callback the holder
pauses (`parseAndEmit_spec`).
-/
import HuginAgent.Engine.Pauses
import HuginAgent.Sessions.Signals

namespace HuginAgent

/-! ### Lines -/

namespace RunnerEnv

variable {env : RunnerEnv}

/-- The events of a line; `none` where reading it throws. -/
def read (env : RunnerEnv) (line : JsString) : Option (List JsObject) :=
  match env.engine with
  | .claude => claudeLineEvents env.number line
  | .codex => codexLineEvents env.number line

def lineEvents (env : RunnerEnv) (line : JsString) : List JsObject := (env.read line).getD []

def Readable (env : RunnerEnv) (lines : List JsString) : Prop :=
  ∀ line ∈ lines, (env.read line).isSome = true

/-- The events of all the lines of a text, whether or not something ends the last. -/
def streamEvents (env : RunnerEnv) (text : JsString) : Option (List JsObject) :=
  ((splitAll newline text).mapM env.read).map List.flatten

theorem streamEvents_some {text : JsString} {events : List JsObject}
    (h : env.streamEvents text = some events) :
    env.Readable (splitAll newline text) ∧
      events = (splitAll newline text).flatMap env.lineEvents := by
  obtain ⟨r, hr, rfl⟩ := Option.map_eq_some_iff.mp h
  obtain ⟨hreadable, rfl⟩ := mapM_getD hr
  exact ⟨hreadable, rfl⟩

/-- Nothing is read of a blank line. -/
theorem read_blank (env : RunnerEnv) {line : JsString} (h : trim line = []) :
    env.read line = some [] := by
  unfold read claudeLineEvents codexLineEvents
  rw [if_pos h, if_pos h]
  split
  · rfl
  · rfl

end RunnerEnv

/-! ### Events by their source -/

namespace RunEffect

def told : RunEffect → Option (EventSource × JsObject)
  | event source ev => some (source, ev)
  | _ => none

end RunEffect

def toldEvents (log : List RunEffect) : List (EventSource × JsObject) :=
  log.filterMap RunEffect.told

def ofSource (source : EventSource) (events : List (EventSource × JsObject)) : List JsObject :=
  (events.filter fun p => p.1 = source).map Prod.snd

def tagged (source : EventSource) (events : List JsObject) : List (EventSource × JsObject) :=
  events.map fun ev => (source, ev)

theorem toldEvents_append (log more : List RunEffect) :
    toldEvents (log ++ more) = toldEvents log ++ toldEvents more := List.filterMap_append

theorem ofSource_append (source : EventSource) (events more : List (EventSource × JsObject)) :
    ofSource source (events ++ more) = ofSource source events ++ ofSource source more := by
  rw [ofSource, List.filter_append, List.map_append]
  rfl

theorem ofSource_tagged (source : EventSource) (events : List JsObject) :
    ofSource source (tagged source events) = events := by
  unfold ofSource tagged
  rw [List.filter_eq_self.mpr, List.map_map]
  · exact List.map_id events
  · intro p hp
    obtain ⟨ev, -, rfl⟩ := List.mem_map.mp hp
    exact decide_eq_true rfl

theorem ofSource_other {source other : EventSource} (h : other ≠ source) (events : List JsObject) :
    ofSource source (tagged other events) = [] := by
  unfold ofSource tagged
  rw [List.filter_eq_nil_iff.mpr]
  · rfl
  · intro p hp
    obtain ⟨ev, -, rfl⟩ := List.mem_map.mp hp
    exact fun heq => h (of_decide_eq_true heq)

theorem tagged_append (source : EventSource) (events more : List JsObject) :
    tagged source (events ++ more) = tagged source events ++ tagged source more := List.map_append

/-- The events of the output in a log. -/
theorem stdoutEvents_eq (log : List RunEffect) :
    stdoutEvents log = ofSource .stdout (toldEvents log) := by
  induction log with
  | nil => rfl
  | cons e rest ih =>
      unfold stdoutEvents toldEvents at *
      cases e with
      | event source ev =>
          cases source with
          | stdout => exact congrArg (ev :: ·) ih
          | stderr => exact ih
          | engine => exact ih
      | approval req => exact ih
      | done outcome => exact ih
      | signal sig => exact ih
      | paused => exact ih
      | resumed => exact ih

namespace ResumeRun

variable {env : RunnerEnv} {st st' st'' : ResumeRun}

/-! ### Pauses -/

/-- All that has been emitted. -/
def heard (st : ResumeRun) : List (EventSource × JsObject) :=
  toldEvents st.log ++ st.pendingEvents

/-- The run goes on, and its log tells of the pauses and keeps to them. -/
structure Paced (st : ResumeRun) : Prop where
  unfinished : st.finished = false
  logged : pausedAfter st.log false = st.paused
  honours : HonoursPauses false st.log

/-- And nothing is kept but in a pause. -/
structure Orderly (st : ResumeRun) : Prop extends Paced st where
  waiting : st.paused = false → st.pendingEvents = []

/-- A note of no event. -/

theorem Paced.pause (h : Paced st) :
    Paced st.pause ∧ st.pause.paused = true ∧ st.pause.pendingEvents = st.pendingEvents ∧
      toldEvents st.pause.log = toldEvents st.log ∧ eventCount st.pause.log = eventCount st.log := by
  have hpause : st.pause = { st.note .paused with paused := true } := by
    unfold ResumeRun.pause
    rw [h.unfinished, Bool.false_or]
    split
    · rename_i hpaused
      rw [← hpaused]
      rfl
    · rfl
  rw [hpause]
  refine ⟨⟨h.unfinished, ?_, ?_⟩, rfl, rfl, ?_, ?_⟩
  · show pausedAfter (st.log ++ [.paused]) false = true
    rw [ClaudeRun.pausedAfter_append]
    rfl
  · show HonoursPauses false (st.log ++ [.paused])
    rw [honoursPauses_append]
    exact ⟨h.honours, trivial⟩
  · show toldEvents (st.log ++ [.paused]) = _
    rw [toldEvents_append]
    exact List.append_nil _
  · show eventCount (st.log ++ [.paused]) = _
    rw [ClaudeRun.eventCount_append]
    rfl

/-- An event is told. -/
theorem tell_spec (env : RunnerEnv) (ev : EventSource × JsObject) (h : Paced st)
    (hpaused : st.paused = false) :
    Paced (st.tell env ev) ∧ toldEvents (st.tell env ev).log = toldEvents st.log ++ [ev] ∧
      (st.tell env ev).pendingEvents = st.pendingEvents ∧
      (st.tell env ev).paused = env.pauses (eventCount st.log) ∧
      eventCount (st.tell env ev).log = eventCount st.log + 1 := by
  have hnoted : Paced (st.note (.event ev.1 ev.2)) := by
    refine ⟨h.unfinished, ?_, ?_⟩
    · show pausedAfter (st.log ++ [_]) false = st.paused
      rw [ClaudeRun.pausedAfter_append, h.logged]
      rfl
    · show HonoursPauses false (st.log ++ [_])
      rw [honoursPauses_append, h.logged]
      exact ⟨h.honours, hpaused, trivial⟩
  have htold : toldEvents (st.note (.event ev.1 ev.2)).log = toldEvents st.log ++ [ev] :=
    toldEvents_append _ _
  have hcount : eventCount (st.note (.event ev.1 ev.2)).log = eventCount st.log + 1 :=
    ClaudeRun.eventCount_append _ _
  unfold tell
  by_cases hpauses : env.pauses (eventCount st.log) = true
  · obtain ⟨hpace, hnow, hkept, hsame, hsameCount⟩ := hnoted.pause
    rw [if_pos hpauses]
    exact ⟨hpace, hsame.trans htold, hkept, hnow.trans hpauses.symm, hsameCount.trans hcount⟩
  · rw [if_neg hpauses]
    exact ⟨hnoted, htold, rfl, hpaused.trans (Bool.eq_false_iff.mpr hpauses).symm, hcount⟩

/-- An event is emitted. -/
theorem emit_spec (env : RunnerEnv) (source : EventSource) (ev : JsObject) (h : Orderly st) :
    Orderly (st.emit env source ev) ∧ (st.emit env source ev).heard = st.heard ++ [(source, ev)] := by
  unfold emit
  by_cases hpaused : st.paused = true
  · rw [if_pos hpaused]
    refine ⟨⟨⟨h.unfinished, h.logged, h.honours⟩, fun hrun => ?_⟩, ?_⟩
    · exact absurd (hrun.symm.trans hpaused) Bool.false_ne_true
    · exact (List.append_assoc _ _ _).symm
  · rw [if_neg hpaused]
    have hrunning : st.paused = false := Bool.eq_false_iff.mpr hpaused
    obtain ⟨hpace, htold, hkept, -, -⟩ := tell_spec env (source, ev) h.toPaced hrunning
    refine ⟨⟨hpace, fun _ => hkept.trans (h.waiting hrunning)⟩, ?_⟩
    unfold heard
    rw [htold, hkept, h.waiting hrunning, List.append_nil, List.append_nil]

/-- **What is kept is told, up to a pause.** -/
theorem flushEvents_spec (env : RunnerEnv) (events : List (EventSource × JsObject)) (h : Paced st) :
    Orderly (flushEvents env events st) ∧
      (flushEvents env events st).heard = toldEvents st.log ++ events := by
  induction events generalizing st with
  | nil => exact ⟨⟨⟨h.unfinished, h.logged, h.honours⟩, fun _ => rfl⟩, rfl⟩
  | cons ev rest ih =>
      rw [flushEvents]
      by_cases hpaused : st.paused = true
      · rw [if_pos hpaused]
        refine ⟨⟨⟨h.unfinished, h.logged, h.honours⟩, fun hrun => ?_⟩, rfl⟩
        exact absurd (hrun.symm.trans hpaused) Bool.false_ne_true
      · rw [if_neg hpaused]
        obtain ⟨hpace, htold, -, -, -⟩ := tell_spec env ev h (Bool.eq_false_iff.mpr hpaused)
        obtain ⟨horderly, hheard⟩ := ih hpace
        refine ⟨horderly, ?_⟩
        rw [hheard, htold, List.append_assoc]
        rfl

/-! ### The events of a line -/

/-- A state that differs in what is observed of a line. -/
structure SameOutput (st st' : ResumeRun) : Prop where
  log : st'.log = st.log
  paused : st'.paused = st.paused
  pendingEvents : st'.pendingEvents = st.pendingEvents
  finished : st'.finished = st.finished
  fault : st'.fault = st.fault
  stdoutBuf : st'.stdoutBuf = st.stdoutBuf

theorem SameOutput.orderly (h : SameOutput st st') (hst : Orderly st) : Orderly st' := by
  refine ⟨⟨h.finished.trans hst.unfinished, ?_, ?_⟩, ?_⟩
  · rw [h.log, h.paused]
    exact hst.logged
  · rw [h.log]
    exact hst.honours
  · rw [h.paused, h.pendingEvents]
    exact hst.waiting

theorem observeLine_same (st : ResumeRun) (line : JsValue) : SameOutput st (st.observeLine line) := by
  unfold observeLine
  split
  · exact ⟨rfl, rfl, rfl, rfl, rfl, rfl⟩
  · exact ⟨rfl, rfl, rfl, rfl, rfl, rfl⟩

theorem observeEvent_same (st : ResumeRun) (ev : JsObject) : SameOutput st (st.observeEvent ev) := by
  unfold observeEvent
  split
  · split
    · exact ⟨rfl, rfl, rfl, rfl, rfl, rfl⟩
    · exact ⟨rfl, rfl, rfl, rfl, rfl, rfl⟩
  · exact ⟨rfl, rfl, rfl, rfl, rfl, rfl⟩

/-- The events of a line, each observed before it is emitted. -/
def emitAll (env : RunnerEnv) (observe : ResumeRun → JsObject → ResumeRun) (events : List JsObject)
    (st : ResumeRun) : ResumeRun :=
  events.foldl (fun st ev => (observe st ev).emit env .stdout ev) st

/-- A line that is read is observed and its events are emitted. -/
theorem parseAndEmit_eq (env : RunnerEnv) (st : ResumeRun) {line : JsString} {events : List JsObject}
    (h : env.read line = some events) :
    ∃ observe base, (∀ st ev, SameOutput st (observe st ev)) ∧ SameOutput st base ∧
      st.parseAndEmit env line = emitAll env observe events base := by
  have hsame : ∀ st : ResumeRun, SameOutput st st := fun st => ⟨rfl, rfl, rfl, rfl, rfl, rfl⟩
  unfold RunnerEnv.read claudeLineEvents codexLineEvents at h
  unfold parseAndEmit
  by_cases hblank : trim line = []
  · rw [if_pos hblank, if_pos hblank] at h
    rw [if_pos hblank]
    have hnone : events = [] := by
      cases hengine : env.engine with
      | claude =>
          rw [hengine] at h
          exact (Option.some.inj h).symm
      | codex =>
          rw [hengine] at h
          exact (Option.some.inj h).symm
    rw [hnone]
    exact ⟨fun st _ => st, st, fun st _ => hsame st, hsame st, rfl⟩
  rw [if_neg hblank, if_neg hblank] at h
  rw [if_neg hblank]
  cases hparse : parse (trim line) with
  | none =>
      rw [hparse] at h
      have hnone : events = [] := by
        cases hengine : env.engine with
        | claude =>
            rw [hengine] at h
            exact (Option.some.inj h).symm
        | codex =>
            rw [hengine] at h
            exact (Option.some.inj h).symm
      rw [hnone]
      exact ⟨fun st _ => st, st, fun st _ => hsame st, hsame st, rfl⟩
  | some parsed =>
      rw [hparse] at h
      cases hengine : env.engine with
      | claude =>
          rw [hengine] at h
          dsimp only at h ⊢
          rw [h]
          exact ⟨fun st _ => st, _, fun st _ => hsame st, observeLine_same st _, rfl⟩
      | codex =>
          rw [hengine] at h
          dsimp only at h ⊢
          rw [h]
          exact ⟨observeEvent, st, observeEvent_same, hsame st, rfl⟩

theorem tell_frame (env : RunnerEnv) (st : ResumeRun) (ev : EventSource × JsObject) :
    (st.tell env ev).fault = st.fault ∧ (st.tell env ev).stdoutBuf = st.stdoutBuf := by
  have hpause : ∀ st : ResumeRun, st.pause.fault = st.fault ∧ st.pause.stdoutBuf = st.stdoutBuf := by
    intro st
    unfold pause
    split
    · exact ⟨rfl, rfl⟩
    · exact ⟨rfl, rfl⟩
  unfold tell
  split
  · exact hpause _
  · exact ⟨rfl, rfl⟩

theorem emit_frame (env : RunnerEnv) (source : EventSource) (st : ResumeRun) (ev : JsObject) :
    (st.emit env source ev).fault = st.fault ∧ (st.emit env source ev).stdoutBuf = st.stdoutBuf := by
  unfold emit
  split
  · exact ⟨rfl, rfl⟩
  · exact tell_frame env st _

theorem flushEvents_frame (env : RunnerEnv) (events : List (EventSource × JsObject))
    (st : ResumeRun) : (flushEvents env events st).fault = st.fault ∧
      (flushEvents env events st).stdoutBuf = st.stdoutBuf := by
  induction events generalizing st with
  | nil => exact ⟨rfl, rfl⟩
  | cons ev rest ih =>
      rw [flushEvents]
      split
      · exact ⟨rfl, rfl⟩
      · obtain ⟨hfault, hbuf⟩ := tell_frame env st ev
        exact ⟨(ih _).1.trans hfault, (ih _).2.trans hbuf⟩

section

variable {observe : ResumeRun → JsObject → ResumeRun} (hobserve : ∀ st ev, SameOutput st (observe st ev))

include hobserve

theorem emitAll_spec (env : RunnerEnv) (events : List JsObject) (h : Orderly st) :
    Orderly (emitAll env observe events st) ∧
      (emitAll env observe events st).heard = st.heard ++ tagged .stdout events ∧
      (emitAll env observe events st).fault = st.fault ∧
      (emitAll env observe events st).stdoutBuf = st.stdoutBuf := by
  induction events generalizing st with
  | nil => exact ⟨h, (List.append_nil _).symm, rfl, rfl⟩
  | cons ev rest ih =>
      have hsame := hobserve st ev
      obtain ⟨horderly, hheard⟩ := emit_spec env .stdout ev (hsame.orderly h)
      obtain ⟨hfault, hbuf⟩ := emit_frame env .stdout (observe st ev) ev
      obtain ⟨ihorderly, ihheard, ihfault, ihbuf⟩ := ih horderly
      refine ⟨ihorderly, ?_, ihfault.trans (hfault.trans hsame.fault),
        ihbuf.trans (hbuf.trans hsame.stdoutBuf)⟩
      have hobserved : (observe st ev).heard = st.heard := by
        unfold heard
        rw [hsame.log, hsame.pendingEvents]
      rw [hobserved] at hheard
      show (emitAll env observe rest _).heard = _
      rw [ihheard, hheard, List.append_assoc]
      rfl

/-- In a pause all of them are kept. -/
theorem emitAll_paused (env : RunnerEnv) (events : List JsObject) (hpaused : st.paused = true) :
    (emitAll env observe events st).pendingEvents = st.pendingEvents ++ tagged .stdout events := by
  induction events generalizing st with
  | nil => exact (List.append_nil _).symm
  | cons ev rest ih =>
      have hsame := hobserve st ev
      have hkept : (observe st ev).emit env .stdout ev =
          { observe st ev with
            pendingEvents := (observe st ev).pendingEvents ++ [(.stdout, ev)] } := by
        unfold emit
        rw [if_pos (hsame.paused.trans hpaused)]
      have hnow : ((observe st ev).emit env .stdout ev).paused = true := by
        rw [hkept]
        exact hsame.paused.trans hpaused
      show (emitAll env observe rest ((observe st ev).emit env .stdout ev)).pendingEvents = _
      rw [ih hnow, hkept]
      show ((observe st ev).pendingEvents ++ [_]) ++ _ = _
      rw [hsame.pendingEvents, List.append_assoc]
      rfl

/-- Otherwise those behind one in whose callback the holder pauses. -/
theorem emitAll_kept (env : RunnerEnv) (events : List JsObject) (h : Orderly st)
    (hpaused : st.paused = false) :
    ∃ kept, (emitAll env observe events st).pendingEvents = tagged .stdout kept ∧
      (kept = [] ↔ ∀ i, i + 1 < events.length → env.pauses (eventCount st.log + i) = false) := by
  induction events generalizing st with
  | nil =>
      refine ⟨[], h.waiting hpaused, iff_of_true rfl ?_⟩
      exact fun i hi => absurd hi (Nat.not_lt_zero _)
  | cons ev rest ih =>
      have hsame := hobserve st ev
      have hobserved := hsame.orderly h
      have hrunning := hsame.paused.trans hpaused
      obtain ⟨horderly, -⟩ := emit_spec env .stdout ev hobserved
      have htell : (observe st ev).emit env .stdout ev = (observe st ev).tell env (.stdout, ev) := by
        unfold emit
        rw [if_neg (by rw [hrunning]; exact Bool.false_ne_true)]
      obtain ⟨-, -, hkept, hnow, hcount⟩ := tell_spec env (.stdout, ev) hobserved.toPaced hrunning
      rw [← htell, hsame.log] at hnow hcount
      rw [← htell] at hkept
      show ∃ kept, (emitAll env observe rest _).pendingEvents = _ ∧ _
      cases hpauses : env.pauses (eventCount st.log) with
      | true =>
          rw [hpauses] at hnow
          refine ⟨rest, ?_, ?_⟩
          · rw [emitAll_paused hobserve env rest hnow, hkept, hobserved.waiting hrunning]
            rfl
          · constructor
            · intro hnone i hi
              rw [hnone] at hi
              exact absurd (Nat.lt_of_succ_lt_succ hi) (Nat.not_lt_zero i)
            · intro hlast
              by_contra hne
              have hfirst := hlast 0 (Nat.succ_lt_succ (List.length_pos_of_ne_nil hne))
              rw [Nat.add_zero, hpauses] at hfirst
              exact nomatch hfirst
      | false =>
          rw [hpauses] at hnow
          obtain ⟨kept, hpending, hnone⟩ := ih horderly hnow
          refine ⟨kept, hpending, hnone.trans ?_⟩
          rw [hcount]
          constructor
          · intro hrest i hi
            cases i with
            | zero => exact hpauses
            | succ i =>
                have hi' := hrest i (Nat.lt_of_succ_lt_succ hi)
                rw [Nat.add_assoc, Nat.add_comm 1 i] at hi'
                exact hi'
          · intro hall i hi
            have hi' := hall (i + 1) (Nat.succ_lt_succ hi)
            rw [Nat.add_assoc, Nat.add_comm 1 i]
            exact hi'

end

/-- The holder pauses, if at all, at the last of the events. -/
def PausesLast (env : RunnerEnv) (st : ResumeRun) (events : List JsObject) : Prop :=
  ∀ i, i + 1 < events.length → env.pauses (eventCount st.log + i) = false

/-- A line is read. -/
theorem parseAndEmit_spec (h : Orderly st) {line : JsString} (hread : (env.read line).isSome = true) :
    Orderly (st.parseAndEmit env line) ∧
      (st.parseAndEmit env line).heard = st.heard ++ tagged .stdout (env.lineEvents line) ∧
      (st.parseAndEmit env line).fault = st.fault ∧
      (st.parseAndEmit env line).stdoutBuf = st.stdoutBuf ∧
      (st.paused = false → ∃ kept, (st.parseAndEmit env line).pendingEvents = tagged .stdout kept ∧
        (kept = [] ↔ PausesLast env st (env.lineEvents line))) := by
  obtain ⟨events, hevents⟩ := Option.isSome_iff_exists.mp hread
  obtain ⟨observe, base, hobserve, hbase, heq⟩ := parseAndEmit_eq env st hevents
  have hline : env.lineEvents line = events := by
    rw [RunnerEnv.lineEvents, hevents]
    rfl
  have horderly := hbase.orderly h
  obtain ⟨horderly', hheard, hfault, hbuf⟩ := emitAll_spec hobserve env events horderly
  have hobserved : base.heard = st.heard := by
    unfold heard
    rw [hbase.log, hbase.pendingEvents]
  rw [heq, hline]
  refine ⟨horderly', hobserved ▸ hheard, hfault.trans hbase.fault, hbuf.trans hbase.stdoutBuf, ?_⟩
  intro hpaused
  obtain ⟨kept, hpending, hnone⟩ :=
    emitAll_kept hobserve env events horderly (hbase.paused.trans hpaused)
  rw [hbase.log] at hnone
  exact ⟨kept, hpending, hnone⟩

/-! ### The buffer -/

theorem drainLines_spec {lines : List JsString} (rest : JsString) (hreadable : env.Readable lines)
    (h : Orderly st) (hfault : st.fault = none) :
    Orderly (drainLines env lines rest st) ∧
      (drainLines env lines rest st).heard =
        st.heard ++ tagged .stdout (lines.flatMap env.lineEvents) ∧
      (drainLines env lines rest st).fault = none ∧
      (drainLines env lines rest st).stdoutBuf = rest := by
  induction lines generalizing st with
  | nil =>
      exact ⟨⟨⟨h.unfinished, h.logged, h.honours⟩, h.waiting⟩, (List.append_nil _).symm, hfault, rfl⟩
  | cons line lines ih =>
      obtain ⟨hline, hlines⟩ := List.forall_mem_cons.mp hreadable
      obtain ⟨horderly, hheard, hsame, -, -⟩ := parseAndEmit_spec h hline
      have hsound := hsame.trans hfault
      rw [drainLines, if_neg (by rw [hsound]; exact Bool.false_ne_true)]
      obtain ⟨ihorderly, ihheard, ihfault, ihbuf⟩ := ih hlines horderly hsound
      refine ⟨ihorderly, ?_, ihfault, ihbuf⟩
      rw [ihheard, hheard, List.flatMap_cons, tagged_append, List.append_assoc]

/-- The lines of the buffer are read. -/
theorem drain_spec (h : Orderly st) (hfault : st.fault = none)
    (hreadable : env.Readable (splitLines newline st.stdoutBuf).1) :
    Orderly (st.drain env false) ∧
      (st.drain env false).heard =
        st.heard ++ tagged .stdout ((splitLines newline st.stdoutBuf).1.flatMap env.lineEvents) ∧
      (st.drain env false).fault = none ∧
      (st.drain env false).stdoutBuf = (splitLines newline st.stdoutBuf).2 := by
  unfold drain
  dsimp only
  rw [Bool.and_false, if_neg Bool.false_ne_true]
  exact drainLines_spec _ hreadable h hfault

/-- There is nothing more to read. -/
def Dry (st : ResumeRun) : Prop := newline ∉ st.stdoutBuf ∧ trim st.stdoutBuf = []

/-- The buffer is read to its end. -/
theorem drain_flush (h : Orderly st) (hfault : st.fault = none)
    (hreadable : env.Readable (splitAll newline st.stdoutBuf)) :
    Orderly (st.drain env true) ∧
      (st.drain env true).heard =
        st.heard ++ tagged .stdout ((splitAll newline st.stdoutBuf).flatMap env.lineEvents) ∧
      (st.drain env true).fault = none ∧ Dry (st.drain env true) ∧
      (st.paused = false → newline ∉ st.stdoutBuf →
        ∃ kept, (st.drain env true).pendingEvents = tagged .stdout kept ∧
          (kept = [] ↔ PausesLast env st (env.lineEvents st.stdoutBuf))) := by
  have hlines : env.Readable (splitLines newline st.stdoutBuf).1 :=
    fun line hline => hreadable line (List.mem_append_left _ hline)
  have htail : (env.read (splitLines newline st.stdoutBuf).2).isSome = true :=
    hreadable _ (List.mem_append_right _ (List.mem_singleton.mpr rfl))
  have hnewline : newline ∉ (splitLines newline st.stdoutBuf).2 :=
    (notMem_splitLines st.stdoutBuf).2
  obtain ⟨horderly, hheard, hsound, hbuf⟩ := drainLines_spec _ hlines h hfault
  have hall : (splitAll newline st.stdoutBuf).flatMap env.lineEvents =
      (splitLines newline st.stdoutBuf).1.flatMap env.lineEvents ++
        env.lineEvents (splitLines newline st.stdoutBuf).2 := by
    rw [splitAll, List.flatMap_append, List.flatMap_singleton]
  have hcut : newline ∉ st.stdoutBuf →
      drainLines env (splitLines newline st.stdoutBuf).1 (splitLines newline st.stdoutBuf).2 st = st ∧
        (splitLines newline st.stdoutBuf).2 = st.stdoutBuf := by
    intro hwhole
    rw [splitLines_of_notMem hwhole]
    exact ⟨rfl, rfl⟩
  unfold drain
  dsimp only
  rw [if_pos (by rw [hsound]; rfl)]
  unfold flushTail
  rw [hbuf, hall, tagged_append, ← List.append_assoc, ← hheard]
  by_cases hblank : trim (splitLines newline st.stdoutBuf).2 = []
  · have hnone : env.lineEvents (splitLines newline st.stdoutBuf).2 = [] := by
      rw [RunnerEnv.lineEvents, env.read_blank hblank]
      rfl
    rw [if_pos hblank, hnone]
    have hdry : Dry (drainLines env (splitLines newline st.stdoutBuf).1
        (splitLines newline st.stdoutBuf).2 st) := by
      unfold Dry
      rw [hbuf]
      exact ⟨hnewline, hblank⟩
    refine ⟨horderly, (List.append_nil _).symm, hsound, hdry, ?_⟩
    intro hpaused hwhole
    obtain ⟨hsame, hrest⟩ := hcut hwhole
    rw [hsame, ← hrest, hnone]
    exact ⟨[], h.waiting hpaused, iff_of_true rfl fun i hi => absurd hi (Nat.not_lt_zero _)⟩
  · rw [if_neg hblank]
    have hemptied : Orderly { drainLines env (splitLines newline st.stdoutBuf).1
        (splitLines newline st.stdoutBuf).2 st with stdoutBuf := [] } :=
      ⟨⟨horderly.unfinished, horderly.logged, horderly.honours⟩, horderly.waiting⟩
    obtain ⟨horderly', hheard', hfault', hbuf', hkept⟩ := parseAndEmit_spec hemptied htail
    refine ⟨horderly', hheard', hfault'.trans hsound, ⟨?_, ?_⟩, ?_⟩
    · rw [hbuf']
      exact List.not_mem_nil
    · rw [hbuf']
      rfl
    · intro hpaused hwhole
      obtain ⟨hsame, hrest⟩ := hcut hwhole
      rw [hsame] at hkept ⊢
      rw [hrest] at hkept ⊢
      exact hkept hpaused

/-- Nothing more is read. -/
theorem drain_dry (hdry : Dry st) (flush : Bool) : st.drain env flush = st := by
  unfold drain flushTail
  dsimp only
  rw [splitLines_of_notMem hdry.1]
  have hsame : drainLines env [] st.stdoutBuf st = st := rfl
  rw [hsame, if_pos hdry.2, ite_self]

end ResumeRun

end HuginAgent
