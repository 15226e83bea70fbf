/-
Where the output of a child is cut into chunks.

Four readers take lines out of a stream: the one of a job, the two of a resumed session and that of
a connection to the approval bridge.  Each decodes a chunk by itself and then is a reader of lines,
so what it makes is a matter of the text it has decoded, and that is the text of the stream just
when no cut is inside a character.  The connection asks for what the gate reads of a line
(`lineRequests_eq`).
-/
import HuginAgent.Kit.Reader
import HuginAgent.Sessions.Told

namespace HuginAgent

/-! ### A connection to the bridge -/

/-- The request a line brings; `none` where reading it throws. -/
def lineRequests (line : JsString) : Option (List ApprovalRequest) :=
  if line = [] then some []
  else
    match parseObject line with
    | none => some []
    | some m =>
        match m.get (js "t"), m.get (js "id") with
        | .str t, .str id =>
            if t = js "req" then
              (stringOf ((m.get (js "tool_name")).orElse (.lit "unknown"))).map fun toolName =>
                [⟨id, toolName, m.get (js "input"), none⟩]
            else some []
        | _, _ => some []

/-- Where the name is one, the request is that of the gate. -/
theorem lineRequests_eq {line : JsString} {reqs : List ApprovalRequest}
    (h : lineRequests line = some reqs) : reqs = (readReq line).toList := by
  unfold lineRequests at h
  unfold readReq
  split at h
  · rename_i hempty
    rw [hempty, show parseObject [] = none from rfl]
    exact (Option.some.inj h).symm
  · cases hparse : parseObject line with
    | none =>
        rw [hparse] at h
        exact (Option.some.inj h).symm
    | some m =>
        rw [hparse] at h
        revert h
        dsimp only
        generalize m.get (js "t") = kind
        generalize m.get (js "id") = ident
        cases kind with
        | str t =>
            cases ident with
            | str id =>
                intro h
                by_cases hreq : t = js "req"
                · simp only [if_pos hreq] at h ⊢
                  obtain ⟨name, hname, rfl⟩ := Option.map_eq_some_iff.mp h
                  rw [hname]
                  rfl
                · simp only [if_neg hreq] at h ⊢
                  exact (Option.some.inj h).symm
            | _ => exact fun h => (Option.some.inj h).symm
        | _ => exact fun h => (Option.some.inj h).symm

/-- The `data` of a connection, `onConnection`. -/
def connectionData (r : Reader UInt16 ApprovalRequest) (chunk : List UInt8) :
    Reader UInt16 ApprovalRequest :=
  r.feed newline lineRequests (utf8Decode chunk)

/-! ### Chunks of a stream -/

theorem decodeChunks_eq_flatten (chunks : List (List UInt8)) :
    decodeChunks chunks = (chunks.map utf8Decode).flatten := List.flatMap_def

/-- What is read of a stream, chunk by chunk. -/
theorem reads_decoded {β : Type} (f : JsString → Option (List β)) (chunks : List (List UInt8)) :
    Reader.Reads newline f (decodeChunks chunks)
      ((chunks.map utf8Decode).foldl (Reader.feed newline f) Reader.empty) := by
  rw [decodeChunks_eq_flatten]
  exact Reader.reads_chunks Reader.reads_empty (chunks.map utf8Decode)

theorem decodeChunks_single (bytes : List UInt8) : decodeChunks [bytes] = utf8Decode bytes :=
  List.flatMap_singleton utf8Decode bytes

/-! ### A job -/

namespace ClaudeRun

variable {env : RunEnv} {st : ClaudeRun} {r : Reader UInt16 JsObject} {before : List JsObject}

/-- The child of the run writes, and nothing has come of it yet. -/
structure Listening (st : ClaudeRun) : Prop where
  fault : st.fault = none
  child : st.child.isSome = true
  paused : st.paused = false
  stdoutBuf : st.stdoutBuf = []

/-- The run has told what the reader has made, behind what was told before. -/
structure Follows (before : List JsObject) (st : ClaudeRun) (r : Reader UInt16 JsObject) : Prop where
  events : stdoutEvents st.log = before ++ r.out
  sound : r.broken = false → st.fault = none ∧ st.stdoutBuf = r.buf
  broken : r.broken = true → st.fault = some .callback
  child : st.child.isSome = true
  paused : st.paused = false

theorem drainLines_follows (hpauses : ∀ n, env.pauses n = false) (lines : List JsString)
    (rest : JsString) (st : ClaudeRun) (hfault : st.fault = none) (hchild : st.child.isSome = true)
    (hpaused : st.paused = false) :
    Follows (stdoutEvents st.log) (drainLines env lines rest st)
      ⟨rest, (readLines (claudeLineEvents env.number) lines).1,
        (readLines (claudeLineEvents env.number) lines).2⟩ := by
  induction lines generalizing st with
  | nil => exact ⟨(List.append_nil _).symm, fun _ => ⟨hfault, rfl⟩, (by intro h; cases h), hchild, hpaused⟩
  | cons line lines ih =>
      rw [drainLines, if_neg (by rw [hpaused]; exact Bool.false_ne_true), readLines]
      cases hevents : claudeLineEvents env.number line with
      | none => exact ⟨(List.append_nil _).symm, (by intro h; cases h), fun _ => rfl, hchild, hpaused⟩
      | some events =>
          obtain ⟨htold, -, hrunning⟩ := emitAll_stdout env st events
          obtain ⟨hsame, -⟩ := emitAll_frame env .stdout st events
          have hstill : (events.foldl (emit env .stdout) st).child.isSome = true := by
            obtain ⟨effects, -, hst'⟩ := emitAll_tells env .stdout st events
            rw [hst']
            exact hchild
          have hfollows := ih (events.foldl (emit env .stdout) st) (hsame.trans hfault) hstill
            (hrunning.mpr ⟨hpaused, fun i _ => hpauses _⟩)
          refine ⟨?_, hfollows.sound, hfollows.broken, hfollows.child, hfollows.paused⟩
          have hall := hfollows.events
          rw [htold, List.append_assoc] at hall
          exact hall

/-- A chunk of output. -/
theorem Follows.step (hpauses : ∀ n, env.pauses n = false) (h : Follows before st r)
    (chunk : List UInt8) :
    Follows before (step env st (.stdout chunk))
      (r.feed newline (claudeLineEvents env.number) (utf8Decode chunk)) := by
  unfold Reader.feed
  by_cases hbroken : r.broken = true
  · rw [if_pos hbroken]
    have hstays : ClaudeRun.step env st (.stdout chunk) = st := by
      rw [ClaudeRun.step, if_pos]
      rw [h.broken hbroken]
      rfl
    rw [hstays]
    exact h
  · obtain ⟨hfault, hbuf⟩ := h.sound (Bool.eq_false_iff.mpr hbroken)
    have hcomes : ClaudeRun.step env st (.stdout chunk) = st.stdoutData env chunk := by
      rw [ClaudeRun.step, if_neg]
      · rfl
      · rw [hfault, Admits, h.child]
        exact Bool.false_ne_true
    rw [if_neg hbroken, hcomes]
    have hfollows := drainLines_follows hpauses
      (splitLines newline (st.stdoutBuf ++ utf8Decode chunk)).1
      (splitLines newline (st.stdoutBuf ++ utf8Decode chunk)).2
      { st with stdoutBuf := st.stdoutBuf ++ utf8Decode chunk } hfault h.child h.paused
    rw [hbuf] at hfollows
    refine ⟨?_, ?_, ?_, ?_, ?_⟩
    · have hall := hfollows.events
      rw [show stdoutEvents ({ st with stdoutBuf := r.buf ++ utf8Decode chunk } : ClaudeRun).log =
        before ++ r.out from h.events, List.append_assoc] at hall
      unfold stdoutData drain
      rw [hbuf]
      exact hall
    · unfold stdoutData drain
      rw [hbuf]
      exact hfollows.sound
    · unfold stdoutData drain
      rw [hbuf]
      exact hfollows.broken
    · unfold stdoutData drain
      rw [hbuf]
      exact hfollows.child
    · unfold stdoutData drain
      rw [hbuf]
      exact hfollows.paused

theorem Follows.run (hpauses : ∀ n, env.pauses n = false) (h : Follows before st r)
    (chunks : List (List UInt8)) :
    Follows before (Machine.run (ClaudeRun.step env) st (chunks.map .stdout))
      ((chunks.map utf8Decode).foldl (Reader.feed newline (claudeLineEvents env.number)) r) := by
  induction chunks generalizing st r with
  | nil => exact h
  | cons chunk rest ih => exact ih (h.step hpauses chunk)

/-- At the close there is no line left to read. -/
theorem Follows.close {text : JsString} (h : Follows before st r)
    (hreads : Reader.Reads newline (claudeLineEvents env.number) text r) (code : Option JsNumber)
    (signalled : Bool) :
    stdoutEvents (ClaudeRun.step env st (.close code signalled)).log = before ++ r.out := by
  cases hbroken : r.broken with
  | true =>
      rw [ClaudeRun.step, if_pos]
      · exact h.events
      · rw [h.broken hbroken]
        rfl
  | false =>
      obtain ⟨hfault, hbuf⟩ := h.sound hbroken
      have hwhole : newline ∉ st.stdoutBuf := by
        rw [hbuf, hreads.buf hbroken]
        exact (notMem_splitLines text).2
      have hdrained : st.drain env = st := by
        unfold drain
        rw [splitLines_of_notMem hwhole]
        rfl
      rw [ClaudeRun.step, if_neg]
      · show stdoutEvents (st.close env code signalled).log = _
        unfold ClaudeRun.close
        rw [hdrained, hfault, Option.isSome_none, if_neg Bool.false_ne_true,
          (finish_leaves env st _).events]
        exact h.events
      · rw [hfault, Admits, h.child]
        exact Bool.false_ne_true

/-- The events of a run whose child writes the chunks and closes are a matter of the text. -/
theorem events_of_chunks (hpauses : ∀ n, env.pauses n = false) (h : Listening st)
    (code : Option JsNumber) (signalled : Bool) {chunks chunks' : List (List UInt8)}
    (hsame : decodeChunks chunks = decodeChunks chunks') :
    stdoutEvents (Machine.run (step env) st (chunks.map .stdout ++ [.close code signalled])).log =
      stdoutEvents
        (Machine.run (step env) st (chunks'.map .stdout ++ [.close code signalled])).log := by
  have hfresh : Follows (stdoutEvents st.log) st Reader.empty :=
    ⟨(List.append_nil _).symm, fun _ => ⟨h.fault, h.stdoutBuf⟩, (fun h => nomatch h), h.child, h.paused⟩
  have hreads := reads_decoded (claudeLineEvents env.number) chunks
  have hreads' := reads_decoded (claudeLineEvents env.number) chunks'
  rw [← hsame] at hreads'
  have htold := (hfresh.run hpauses chunks).close hreads code signalled
  have htold' := (hfresh.run hpauses chunks').close hreads' code signalled
  rw [Machine.run_append, Machine.run_append]
  show stdoutEvents (step env _ _).log = stdoutEvents (step env _ _).log
  rw [htold, htold', (hreads.unique hreads').1]

end ClaudeRun

/-! ### A resumed session -/

namespace ResumeRun

variable {env : RunnerEnv} {st : ResumeRun} {r : Reader UInt16 JsObject} {before : List JsObject}
  {cancelled : Bool}

structure Listening (st : ResumeRun) : Prop where
  fault : st.fault = none
  child : st.child.isSome = true
  paused : st.paused = false
  stdoutBuf : st.stdoutBuf = []

/-- The run has told what the reader has made, and is as it was. -/
structure Follows (before : List JsObject) (cancelled : Bool) (st : ResumeRun)
    (r : Reader UInt16 JsObject) : Prop where
  events : stdoutEvents st.log = before ++ r.out
  sound : r.broken = false → st.fault = none ∧ st.stdoutBuf = r.buf
  broken : r.broken = true → st.fault = some .callback
  child : st.child.isSome = true
  paused : st.paused = false
  cancelled : st.cancelled = cancelled

/-- Without pauses all events of a line are told. -/
theorem emitAll_quiet (hpauses : ∀ n, env.pauses n = false)
    {observe : ResumeRun → JsObject → ResumeRun} (hobserve : ∀ st ev, SameOutput st (observe st ev))
    (events : List JsObject) (hpaused : st.paused = false) :
    stdoutEvents (emitAll env observe events st).log = stdoutEvents st.log ++ events ∧
      (emitAll env observe events st).paused = false ∧
      (emitAll env observe events st).fault = st.fault ∧
      (emitAll env observe events st).stdoutBuf = st.stdoutBuf := by
  induction events generalizing st with
  | nil => exact ⟨(List.append_nil _).symm, hpaused, rfl, rfl⟩
  | cons ev rest ih =>
      have hsame := hobserve st ev
      have hrunning := hsame.paused.trans hpaused
      have htold : (observe st ev).emit env .stdout ev = (observe st ev).note (.event .stdout ev) := by
        unfold emit tell
        rw [if_neg (by rw [hrunning]; exact Bool.false_ne_true),
          if_neg (by rw [hpauses]; exact Bool.false_ne_true)]
      have hnoted : stdoutEvents ((observe st ev).note (.event .stdout ev)).log =
          stdoutEvents st.log ++ [ev] := by
        show stdoutEvents ((observe st ev).log ++ [_]) = _
        rw [ClaudeRun.stdoutEvents_append, hsame.log]
        rfl
      have hstill : ((observe st ev).emit env .stdout ev).paused = false := by
        rw [htold]
        exact hrunning
      obtain ⟨hevents, hquiet, hfault, hbuf⟩ := ih hstill
      obtain ⟨hframe, hkept⟩ := emit_frame env .stdout (observe st ev) ev
      refine ⟨?_, hquiet, hfault.trans (hframe.trans hsame.fault),
        hbuf.trans (hkept.trans hsame.stdoutBuf)⟩
      show stdoutEvents (emitAll env observe rest ((observe st ev).emit env .stdout ev)).log = _
      rw [hevents, htold, hnoted, List.append_assoc]
      rfl

/-- A line that throws tells nothing. -/
theorem parseAndEmit_throws (env : RunnerEnv) (st : ResumeRun) {line : JsString}
    (h : env.read line = none) :
    (st.parseAndEmit env line).log = st.log ∧ (st.parseAndEmit env line).paused = st.paused ∧
      (st.parseAndEmit env line).fault = some .callback := by
  unfold RunnerEnv.read claudeLineEvents codexLineEvents at h
  unfold parseAndEmit
  by_cases hblank : trim line = []
  · rw [if_pos hblank, if_pos hblank] at h
    split at h
    · exact nomatch h
    · exact nomatch h
  rw [if_neg hblank, if_neg hblank] at h
  rw [if_neg hblank]
  cases hparse : parse (trim line) with
  | none =>
      rw [hparse] at h
      split at h
      · exact nomatch h
      · exact nomatch h
  | some parsed =>
      rw [hparse] at h
      cases hengine : env.engine with
      | claude =>
          rw [hengine] at h
          dsimp only at h ⊢
          rw [h]
          have hsame := observeLine_same st (parsed.loaded env.number)
          exact ⟨hsame.log, hsame.paused, rfl⟩
      | codex =>
          rw [hengine] at h
          dsimp only at h ⊢
          rw [h]
          exact ⟨rfl, rfl, rfl⟩

/-- A line, as the reader takes it. -/
theorem parseAndEmit_quiet (hpauses : ∀ n, env.pauses n = false) (hpaused : st.paused = false)
    (hfault : st.fault = none) (line : JsString) :
    stdoutEvents (st.parseAndEmit env line).log =
        stdoutEvents st.log ++ (env.read line).getD [] ∧
      (st.parseAndEmit env line).paused = false ∧
      ((env.read line).isSome = true → (st.parseAndEmit env line).fault = none) ∧
      (env.read line = none → (st.parseAndEmit env line).fault = some .callback) := by
  cases hread : env.read line with
  | none =>
      obtain ⟨hlog, hsame, hthrown⟩ := parseAndEmit_throws env st hread
      refine ⟨?_, hsame.trans hpaused, (fun h => nomatch h), fun _ => hthrown⟩
      rw [hlog]
      exact (List.append_nil _).symm
  | some events =>
      obtain ⟨observe, base, hobserve, hbase, heq⟩ := parseAndEmit_eq env st hread
      obtain ⟨hevents, hquiet, hsame, -⟩ :=
        emitAll_quiet hpauses hobserve events (hbase.paused.trans hpaused)
      rw [heq]
      refine ⟨?_, hquiet, fun _ => (hsame.trans hbase.fault).trans hfault, fun h => nomatch h⟩
      rw [hevents, hbase.log]
      rfl

theorem Works.still {st' : ResumeRun} (h : Works st st') :
    st'.child = st.child ∧ st'.cancelled = st.cancelled := by
  obtain ⟨effects, -, -, hst'⟩ := h
  rw [hst']
  exact ⟨rfl, rfl⟩

theorem drainLines_follows (hpauses : ∀ n, env.pauses n = false) (lines : List JsString)
    (rest : JsString) (st : ResumeRun) (hfault : st.fault = none) (hchild : st.child.isSome = true)
    (hpaused : st.paused = false) :
    Follows (stdoutEvents st.log) st.cancelled (drainLines env lines rest st)
      ⟨rest, (readLines env.read lines).1, (readLines env.read lines).2⟩ := by
  induction lines generalizing st with
  | nil =>
      exact ⟨(List.append_nil _).symm, fun _ => ⟨hfault, rfl⟩, (by intro h; cases h), hchild, hpaused,
        rfl⟩
  | cons line lines ih =>
      obtain ⟨hevents, hquiet, hread, hthrown⟩ := parseAndEmit_quiet hpauses hpaused hfault line
      obtain ⟨hstill, hcancelled⟩ := (parseAndEmit_works env st line).still
      rw [drainLines, readLines]
      cases hline : env.read line with
      | none =>
          have hthrown := hthrown hline
          rw [if_pos (by rw [hthrown]; rfl)]
          rw [hline] at hevents
          exact ⟨hevents, (by intro h; cases h), fun _ => hthrown, by rw [← hchild, ← hstill], hquiet,
            hcancelled⟩
      | some events =>
          have hsound := hread (by rw [hline]; rfl)
          rw [if_neg (by rw [hsound]; exact Bool.false_ne_true)]
          have hfollows := ih (st.parseAndEmit env line) hsound (by rw [hstill]; exact hchild) hquiet
          rw [hcancelled] at hfollows
          refine ⟨?_, hfollows.sound, hfollows.broken, hfollows.child, hfollows.paused,
            hfollows.cancelled⟩
          have hall := hfollows.events
          rw [hevents, hline, List.append_assoc] at hall
          exact hall

theorem Follows.step (hpauses : ∀ n, env.pauses n = false) (h : Follows before cancelled st r)
    (chunk : List UInt8) :
    Follows before cancelled (step env st (.stdout chunk))
      (r.feed newline env.read (utf8Decode chunk)) := by
  unfold Reader.feed
  by_cases hbroken : r.broken = true
  · rw [if_pos hbroken]
    have hstays : ResumeRun.step env st (.stdout chunk) = st := by
      rw [ResumeRun.step, if_pos]
      rw [h.broken hbroken]
      rfl
    rw [hstays]
    exact h
  · obtain ⟨hfault, hbuf⟩ := h.sound (Bool.eq_false_iff.mpr hbroken)
    have hfollows := drainLines_follows hpauses (splitLines newline (r.buf ++ utf8Decode chunk)).1
      (splitLines newline (r.buf ++ utf8Decode chunk)).2
      { st with stdoutBuf := st.stdoutBuf ++ utf8Decode chunk } hfault h.child h.paused
    have hcomes : ResumeRun.step env st (.stdout chunk) =
        drainLines env (splitLines newline (r.buf ++ utf8Decode chunk)).1
          (splitLines newline (r.buf ++ utf8Decode chunk)).2
          { st with stdoutBuf := st.stdoutBuf ++ utf8Decode chunk } := by
      rw [ResumeRun.step, if_neg]
      · show st.stdoutData env chunk = _
        unfold stdoutData drain
        dsimp only
        rw [if_neg (by rw [h.paused]; exact Bool.false_ne_true), Bool.and_false,
          if_neg Bool.false_ne_true, hbuf]
      · rw [hfault, Admits, h.child]
        exact Bool.false_ne_true
    rw [if_neg hbroken, hcomes]
    refine ⟨?_, hfollows.sound, hfollows.broken, hfollows.child, hfollows.paused,
      hfollows.cancelled.trans h.cancelled⟩
    refine hfollows.events.trans ?_
    show stdoutEvents st.log ++ _ = _
    rw [h.events, List.append_assoc]

theorem Follows.run (hpauses : ∀ n, env.pauses n = false) (h : Follows before cancelled st r)
    (chunks : List (List UInt8)) :
    Follows before cancelled (Machine.run (ResumeRun.step env) st (chunks.map .stdout))
      ((chunks.map utf8Decode).foldl (Reader.feed newline env.read) r) := by
  induction chunks generalizing st r with
  | nil => exact h
  | cons chunk rest ih => exact ih (h.step hpauses chunk)

theorem finish_events (env : RunnerEnv) (st : ResumeRun) (outcome : EngineOutcome) :
    stdoutEvents (st.finish env outcome).log = stdoutEvents st.log := by
  unfold finish
  split
  · rfl
  · show stdoutEvents (st.log ++ [.done outcome]) = _
    rw [ClaudeRun.stdoutEvents_append]
    exact List.append_nil _

/-- What the close reads of what nothing has ended. -/
def tailEvents (env : RunnerEnv) (cancelled : Bool) (r : Reader UInt16 JsObject) : List JsObject :=
  if r.broken || cancelled then [] else (env.read r.buf).getD []

theorem Follows.close (hpauses : ∀ n, env.pauses n = false) {text : JsString}
    (h : Follows before cancelled st r) (hreads : Reader.Reads newline env.read text r)
    (code : Option JsNumber) (signalled : Bool) :
    stdoutEvents (ResumeRun.step env st (.close code signalled)).log =
      before ++ r.out ++ tailEvents env cancelled r := by
  unfold tailEvents
  cases hbroken : r.broken with
  | true =>
      rw [ResumeRun.step, if_pos, Bool.true_or, if_pos rfl, List.append_nil]
      · exact h.events
      · rw [h.broken hbroken]
        rfl
  | false =>
      obtain ⟨hfault, hbuf⟩ := h.sound hbroken
      have hwhole : newline ∉ st.stdoutBuf := by
        rw [hbuf, hreads.buf hbroken]
        exact (notMem_splitLines text).2
      have hcomes : ¬ (st.fault.isSome || !st.Admits (.close code signalled)) = true := by
        rw [hfault, Admits, h.child]
        exact Bool.false_ne_true
      rw [ResumeRun.step, if_neg hcomes, Bool.false_or, ← h.events]
      show stdoutEvents (ResumeRun.maybeFinishClosed env
        { st with closeOutcome := some (ClaudeRun.closeOutcome st.cancelled signalled code) }).log = _
      generalize ClaudeRun.closeOutcome st.cancelled signalled code = outcome
      unfold maybeFinishClosed
      dsimp only
      cases hcancelled : cancelled with
      | true =>
          rw [if_pos (h.cancelled.trans hcancelled), if_pos rfl, finish_events, List.append_nil]
      | false =>
          rw [if_neg (by rw [h.cancelled, hcancelled]; exact Bool.false_ne_true),
            if_neg (by rw [h.paused]; exact Bool.false_ne_true), if_neg Bool.false_ne_true]
          have hflushed : stdoutEvents (ResumeRun.drain env true
              { st with closeOutcome := some outcome }).log =
              stdoutEvents st.log ++ (env.read r.buf).getD [] := by
            unfold drain
            dsimp only
            rw [splitLines_of_notMem hwhole]
            have hsame : drainLines env [] st.stdoutBuf { st with closeOutcome := some outcome } =
                { st with closeOutcome := some outcome } := rfl
            rw [hsame, if_pos (by rw [hfault]; rfl)]
            unfold flushTail
            by_cases hblank : trim st.stdoutBuf = []
            · have hnone : env.read r.buf = some [] := by
                rw [← hbuf]
                exact env.read_blank hblank
              rw [if_pos hblank, hnone]
              exact (List.append_nil _).symm
            · rw [if_neg hblank, ← hbuf]
              have hemptied : ({ st with closeOutcome := some outcome, stdoutBuf := [] } :
                  ResumeRun).paused = false := h.paused
              exact (parseAndEmit_quiet hpauses hemptied hfault st.stdoutBuf).1
          split
          · exact hflushed
          · rw [finish_events]
            exact hflushed

/-- The events of a run whose child writes the chunks and closes are a matter of the text. -/
theorem events_of_chunks (hpauses : ∀ n, env.pauses n = false) (h : Listening st)
    (code : Option JsNumber) (signalled : Bool) {chunks chunks' : List (List UInt8)}
    (hsame : decodeChunks chunks = decodeChunks chunks') :
    stdoutEvents (Machine.run (step env) st (chunks.map .stdout ++ [.close code signalled])).log =
      stdoutEvents
        (Machine.run (step env) st (chunks'.map .stdout ++ [.close code signalled])).log := by
  have hfresh : Follows (stdoutEvents st.log) st.cancelled st Reader.empty :=
    ⟨(List.append_nil _).symm, fun _ => ⟨h.fault, h.stdoutBuf⟩, (fun h => nomatch h), h.child,
      h.paused, rfl⟩
  have hreads := reads_decoded env.read chunks
  have hreads' := reads_decoded env.read chunks'
  rw [← hsame] at hreads'
  have htold := (hfresh.run hpauses chunks).close hpauses hreads code signalled
  have htold' := (hfresh.run hpauses chunks').close hpauses hreads' code signalled
  obtain ⟨hout, hbroken, hbuf⟩ := hreads.unique hreads'
  have htail : ∀ r r' : Reader UInt16 JsObject, r.broken = r'.broken →
      (r.broken = false → r.buf = r'.buf) →
      tailEvents env st.cancelled r = tailEvents env st.cancelled r' := by
    intro r r' hbroken hbuf
    unfold tailEvents
    rw [← hbroken]
    cases hr : r.broken with
    | true => rfl
    | false => rw [hbuf hr]
  rw [Machine.run_append, Machine.run_append]
  show stdoutEvents (step env _ _).log = stdoutEvents (step env _ _).log
  rw [htold, htold', hout, htail _ _ hbroken hbuf]

end ResumeRun

/-! ### All four -/

/-- **The readers take the same text from chunks as from the whole stream just when no cut is inside
a character, and then they make the same of it.** -/
theorem cuts_do_not_matter (chunks : List (List UInt8)) :
    (decodeChunks chunks = decodeChunks [chunks.flatten] ↔ CleanCuts chunks) ∧
    (CleanCuts chunks →
      (∀ (env : RunEnv) (st : ClaudeRun) (code : Option JsNumber) (signalled : Bool),
        (∀ n, env.pauses n = false) → ClaudeRun.Listening st →
          stdoutEvents (Machine.run (ClaudeRun.step env) st
              (chunks.map .stdout ++ [.close code signalled])).log =
            stdoutEvents (Machine.run (ClaudeRun.step env) st
              [.stdout chunks.flatten, .close code signalled]).log) ∧
      (∀ (env : RunnerEnv) (st : ResumeRun) (code : Option JsNumber) (signalled : Bool),
        (∀ n, env.pauses n = false) → ResumeRun.Listening st →
          stdoutEvents (Machine.run (ResumeRun.step env) st
              (chunks.map .stdout ++ [.close code signalled])).log =
            stdoutEvents (Machine.run (ResumeRun.step env) st
              [.stdout chunks.flatten, .close code signalled]).log) ∧
      (chunks.foldl connectionData Reader.empty).out =
        (connectionData Reader.empty chunks.flatten).out) := by
  have hiff : decodeChunks chunks = decodeChunks [chunks.flatten] ↔ CleanCuts chunks := by
    rw [decodeChunks_single]
    exact decodeChunks_eq_iff chunks
  refine ⟨hiff, fun hclean => ?_⟩
  have hsame := hiff.mpr hclean
  refine ⟨fun env st code signalled hpauses h => ?_, fun env st code signalled hpauses h => ?_, ?_⟩
  · exact ClaudeRun.events_of_chunks hpauses h code signalled hsame
  · exact ResumeRun.events_of_chunks hpauses h code signalled hsame
  · have hreads := reads_decoded lineRequests chunks
    have hreads' := reads_decoded lineRequests [chunks.flatten]
    rw [← hsame] at hreads'
    have hfold : chunks.foldl connectionData Reader.empty =
        (chunks.map utf8Decode).foldl (Reader.feed newline lineRequests) Reader.empty := by
      rw [List.foldl_map]
      rfl
    rw [hfold]
    exact (hreads.unique hreads').1

/-! ### A cut inside a character -/

/-- An answer of one letter with an accent, which two bytes stand for. -/
def accentBytes : List UInt8 :=
  utf8Encode (js "\x7b\"type\":\"assistant\",\"message\":\x7b\"content\":\"" ++ [0xE9] ++
    js "\"\x7d\x7d" ++ [newline])

/-- The bytes, cut behind the first of the letter. -/
def accentChunks : List (List UInt8) := [accentBytes.take 43, accentBytes.drop 43]

def listeningRun : ClaudeRun := ClaudeRun.run plainEnv [.start (.ok ()) (.child (some 7))]

/-- The texts of the events. -/
def eventTexts (log : List RunEffect) : List (Option JsString) :=
  (stdoutEvents log).map fun ev => stringFromUnknown (ev.get (js "text"))

theorem cut_letter_texts :
    eventTexts (Machine.run (ClaudeRun.step plainEnv) listeningRun
        (accentChunks.map .stdout ++ [zeroClose])).log = [some [replacement, replacement]] ∧
      eventTexts (Machine.run (ClaudeRun.step plainEnv) listeningRun
        ([accentBytes].map .stdout ++ [zeroClose])).log = [some [0xE9]] := by
  decide +kernel

/-- The letter is told as two characters that stand for garbage. -/
theorem cut_letter_garbled :
    accentChunks.flatten = accentBytes ∧
      stdoutEvents (Machine.run (ClaudeRun.step plainEnv) listeningRun
          (accentChunks.map .stdout ++ [zeroClose])).log ≠
        stdoutEvents (Machine.run (ClaudeRun.step plainEnv) listeningRun
          ([accentBytes].map .stdout ++ [zeroClose])).log := by
  refine ⟨by decide +kernel, fun h => ?_⟩
  obtain ⟨hcut, hwhole⟩ := cut_letter_texts
  unfold eventTexts at hcut hwhole
  rw [h, hwhole] at hcut
  exact absurd hcut (by decide)

/-- A cut before the letter does nothing. -/
theorem clean_cut_told :
    stdoutEvents (Machine.run (ClaudeRun.step plainEnv) listeningRun
        ([accentBytes.take 42, accentBytes.drop 42].map .stdout ++ [zeroClose])).log =
      stdoutEvents (Machine.run (ClaudeRun.step plainEnv) listeningRun
        [.stdout [accentBytes.take 42, accentBytes.drop 42].flatten, zeroClose]).log := by
  obtain ⟨-, hclean⟩ := cuts_do_not_matter [accentBytes.take 42, accentBytes.drop 42]
  obtain ⟨hjob, -, -⟩ := hclean (by decide +kernel)
  exact hjob plainEnv listeningRun _ _ (fun _ => rfl) ⟨rfl, rfl, rfl, rfl⟩

end HuginAgent
