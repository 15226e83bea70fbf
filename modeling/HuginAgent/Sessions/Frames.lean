/-
Which messages of a turn fit a frame.

The manager of sessions passes on what a run says: an event as it is, the text at the end
as it is.  Each handler is looked at once, with the messages it sends; what a message
takes is read off its parts.
-/
import HuginAgent.Conn.Frames
import HuginAgent.Jobs.Frames

namespace HuginAgent

open SessionResumeManager

variable {env : SessionEnv} {w w' : SessionWorld}

def isTurnMessage (msg : JsObject) : Prop :=
  msg.get (js "type") = .lit "session.event" ∨ msg.get (js "type") = .lit "session.turn.result"

/-- Every event and result of a turn that has been sent fits a frame. -/
def SessionFits (w : SessionWorld) : Prop := ∀ msg ∈ w.sent, isTurnMessage msg → FitsFrame msg

/-! ### What a handler is to fit -/

/-- The result of the turn, when it is still to be reported. -/
def FinalizeFits (env : SessionEnv) (w : SessionWorld) (turnId : JsString) (status : TurnStatus)
    (finalMessage : JsString) (newSessionHandle : Option JsString) : Prop :=
  (w.getTurn turnId).isSome = true →
    turnResultBytes turnId status finalMessage newSessionHandle (env.envelope w.draws) ≤
      maxFrameBytes

def CallbackFits (env : SessionEnv) (w : SessionWorld) (run : RunId) (cb : SessionCallback) : Prop :=
  ∀ r, (w.runs.find? fun r => r.id = run && r.registered) = some r →
    match cb with
    | .event ev => ∀ state, w.getTurn r.turnId = some state →
        sessionEventBytes r.turnId (state.sentSeq + 1) ev (env.envelope w.draws) ≤ maxFrameBytes
    | .done result forkHandle =>
        FinalizeFits env w r.turnId (statusFromOutcome result.outcome) result.finalMessage
          (newHandleOf r result forkHandle)

/-- The callbacks out of `cancel`, one after the other. -/
def SyncFits (env : SessionEnv) (run : RunId) : SessionWorld → List SessionCallback → Prop
  | _, [] => True
  | w, cb :: rest => CallbackFits env w run cb ∧ SyncFits env run (callback env w run cb) rest

def GiveUpFits (env : SessionEnv) (w : SessionWorld) (turnId : JsString) (status : TurnStatus)
    (message : JsString) (sync : List SessionCallback) : Prop :=
  ∀ state, w.getTurn turnId = some state →
    SyncFits env state.run (w.call state.run (.cancel env.cancelGraceMs)) sync ∧
      FinalizeFits env (cancelRun env w state.run sync) turnId status message none

def CloseFits (env : SessionEnv) (sync : JsString → List SessionCallback) :
    SessionWorld → List JsString → Prop
  | _, [] => True
  | w, turnId :: rest =>
      GiveUpFits env w turnId .cancelled (js "session connection closed") (sync turnId) ∧
        CloseFits env sync
          (giveUp env w turnId .cancelled (js "session connection closed") (sync turnId)) rest

/-- The result of a turn whose run does not start. -/
def StartFits (env : SessionEnv) (w : SessionWorld) (target : Option SessionTarget)
    (reply : RunnerReply) : Prop :=
  ∀ t message, target = some t → (planFor env t.engine).runner = true → sessionKey t ∉ w.active →
    reply = .runThrows message ∨ reply = .registerThrows message →
    turnResultBytes (env.turnId w.draws) .error message none (env.envelope (w.draws + 2)) ≤
      maxFrameBytes

/-- The messages of the action fit a frame. -/
def TurnFits (env : SessionEnv) (w : SessionWorld) : SessionAction → Prop
  | .start _ target reply => StartFits env w target reply
  | .callback run cb => CallbackFits env w run cb
  | .timeout id sync => ∀ t, (w.timers.find? fun t => t.1 = id) = some t →
      GiveUpFits env { w with timers := w.timers.filter fun u => u.1 ≠ id } t.2 .error
        (js "resume turn timed out") sync
  | .close sync => CloseFits env sync w (w.turns.rows.map TurnState.turnId)
  | .cancel _ | .ack .. => True

/-! ### What is sent -/

theorem sessionFits_congr (h : w'.sent = w.sent) : SessionFits w' ↔ SessionFits w := by
  rw [SessionFits, SessionFits, h]

theorem sessionFits_snoc {msg : JsObject} (h : w'.sent = w.sent ++ [msg]) :
    SessionFits w' ↔ SessionFits w ∧ (isTurnMessage msg → FitsFrame msg) := by
  rw [SessionFits, h, List.forall_mem_append, List.forall_mem_singleton, SessionFits]

/-- Only the two types count. -/
theorem sessionFits_other {type : String} {rest : JsObject} {e : Envelope}
    (h : w'.sent = w.sent ++ [sessionMsg type rest e]) (hevent : js type ≠ js "session.event")
    (hresult : js type ≠ js "session.turn.result") : SessionFits w' ↔ SessionFits w := by
  rw [sessionFits_snoc h]
  refine and_iff_left ?_
  rintro (h | h)
  · exact absurd (JsValue.str.inj h) hevent
  · exact absurd (JsValue.str.inj h) hresult

theorem sessionFits_event {turnId : JsString} {seq : Nat} {ev : EngineEvent} {e : Envelope}
    (h : w'.sent = w.sent ++ [sessionEvent turnId seq ev e]) :
    SessionFits w' ↔ SessionFits w ∧ sessionEventBytes turnId seq ev e ≤ maxFrameBytes := by
  rw [sessionFits_snoc h, fitsFrame_iff, byteLength_sessionEvent]
  exact and_congr_right fun _ => forall_prop_of_true (Or.inl rfl)

theorem sessionFits_result {turnId : JsString} {status : TurnStatus} {finalMessage : JsString}
    {handle : Option JsString} {e : Envelope}
    (h : w'.sent = w.sent ++ [sessionTurnResult turnId status finalMessage handle e]) :
    SessionFits w' ↔
      SessionFits w ∧ turnResultBytes turnId status finalMessage handle e ≤ maxFrameBytes := by
  rw [sessionFits_snoc h, fitsFrame_iff, byteLength_sessionTurnResult]
  exact and_congr_right fun _ => forall_prop_of_true (Or.inr rfl)

/-! ### Handlers -/

theorem sessionFits_finalize (turnId : JsString) (status : TurnStatus) (finalMessage : JsString)
    (handle : Option JsString) :
    SessionFits (finalize env w turnId status finalMessage handle) ↔
      SessionFits w ∧ FinalizeFits env w turnId status finalMessage handle := by
  rw [finalize, FinalizeFits]
  cases w.getTurn turnId with
  | none => simp
  | some state =>
      simp only [Option.isSome_some, forall_const]
      exact sessionFits_result rfl

theorem sessionFits_callback (run : RunId) (cb : SessionCallback) :
    SessionFits (callback env w run cb) ↔ SessionFits w ∧ CallbackFits env w run cb := by
  rw [callback, CallbackFits]
  cases w.runs.find? fun r => r.id = run && r.registered with
  | none => simp
  | some r =>
      simp only [Option.some.injEq, forall_eq']
      cases cb with
      | event ev =>
          simp only [handleRunEvent]
          cases w.getTurn r.turnId with
          | none => simp
          | some state =>
              simp only [Option.some.injEq, forall_eq']
              split
              · exact sessionFits_event rfl
              · exact sessionFits_event rfl
      | done result forkHandle =>
          exact sessionFits_finalize ..

theorem sessionFits_sync (run : RunId) (sync : List SessionCallback) :
    SessionFits (sync.foldl (fun w cb => callback env w run cb) w) ↔
      SessionFits w ∧ SyncFits env run w sync := by
  induction sync generalizing w with
  | nil => simp [SyncFits]
  | cons cb rest ih =>
      rw [List.foldl_cons, ih, sessionFits_callback, SyncFits, and_assoc]

theorem sessionFits_giveUp (turnId : JsString) (status : TurnStatus) (message : JsString)
    (sync : List SessionCallback) :
    SessionFits (giveUp env w turnId status message sync) ↔
      SessionFits w ∧ GiveUpFits env w turnId status message sync := by
  rw [giveUp, GiveUpFits]
  cases w.getTurn turnId with
  | none => simp
  | some state =>
      simp only [Option.some.injEq, forall_eq']
      rw [sessionFits_finalize, cancelRun, sessionFits_sync, and_assoc]
      exact and_congr_left' (sessionFits_congr rfl)

theorem sessionFits_cancelTurns (sync : JsString → List SessionCallback) (turnIds : List JsString) :
    SessionFits (cancelTurns env sync w turnIds) ↔
      SessionFits w ∧ CloseFits env sync w turnIds := by
  induction turnIds generalizing w with
  | nil => simp [cancelTurns, CloseFits]
  | cons turnId rest ih =>
      rw [cancelTurns, ih, sessionFits_giveUp, CloseFits, and_assoc]

/-- The report that a run has not started is sent whether or not the turn is on record. -/
theorem sessionFits_acceptTurn (req : TurnStart) (target : SessionTarget) (reply : RunnerReply) :
    SessionFits (acceptTurn env w req target reply) ↔ SessionFits w ∧
      ∀ message, reply = .runThrows message ∨ reply = .registerThrows message →
        turnResultBytes (env.turnId w.draws) .error message none (env.envelope (w.draws + 2)) ≤
          maxFrameBytes := by
  have haccept : ∀ w' : SessionWorld, w'.sent = w.sent ++ [sessionAccept req.requestId
        (env.turnId w.draws) (planFor env target.engine).fork
        (planFor env target.engine).mutatesSource (env.envelope (w.draws + 1))] →
      (SessionFits w' ↔ SessionFits w) :=
    fun w' h => sessionFits_other h (by decide) (by decide)
  cases reply with
  | runs => simpa using haccept (acceptTurn env w req target .runs) rfl
  | registerThrows message =>
      simp only [acceptTurn]
      rw [sessionFits_finalize, haccept _ rfl, FinalizeFits]
      simp only [SessionWorld.getTurn, Table.find?_replace, if_true, Option.isSome_some,
        forall_const, reduceCtorEq, false_or, RunnerReply.registerThrows.injEq, forall_eq']
      rfl
  | runThrows message =>
      simp only [acceptTurn]
      split
      · rename_i hturn
        rw [sessionFits_finalize, haccept _ rfl, FinalizeFits]
        simp only [hturn, forall_const, reduceCtorEq, or_false, RunnerReply.runThrows.injEq,
          forall_eq']
        rfl
      · simp only [reduceCtorEq, or_false, RunnerReply.runThrows.injEq, forall_eq']
        rw [sessionFits_result rfl, haccept _ rfl]
        rfl

theorem sessionFits_startTurn (req : TurnStart) (target : Option SessionTarget)
    (reply : RunnerReply) :
    SessionFits (startTurn env w req target reply) ↔
      SessionFits w ∧ StartFits env w target reply := by
  unfold startTurn
  cases target with
  | none => simpa [StartFits] using sessionFits_other rfl (by decide) (by decide)
  | some t =>
      simp only
      split
      · rename_i hrunner
        rw [sessionFits_other rfl (by decide) (by decide)]
        refine (and_iff_left ?_).symm
        rintro t' message ⟨⟩ hrunner'
        rw [hrunner] at hrunner'
        cases hrunner'
      · rename_i hrunner
        split
        · rename_i hbusy
          rw [sessionFits_other rfl (by decide) (by decide)]
          refine (and_iff_left ?_).symm
          rintro t' message ⟨⟩ - hfree
          exact absurd hbusy hfree
        · rename_i hfree
          rw [sessionFits_acceptTurn]
          refine and_congr_right fun _ => ?_
          constructor
          · rintro h t' message ⟨⟩ - - hreply
            exact h message hreply
          · intro h message hreply
            exact h t message rfl (by simpa using hrunner) hfree hreply

theorem sessionFits_step (act : SessionAction) :
    SessionFits (w.step env act) ↔ SessionFits w ∧ TurnFits env w act := by
  cases act with
  | start req target reply => exact sessionFits_startTurn ..
  | cancel turnId =>
      rw [SessionWorld.step, handleCancel, TurnFits, and_true]
      split
      · exact Iff.rfl
      · exact sessionFits_congr rfl
  | ack turnId ackSeq =>
      rw [SessionWorld.step, handleAck, TurnFits, and_true]
      split
      · exact Iff.rfl
      · simp only [maybeResume]
        split
        · exact sessionFits_congr rfl
        · exact sessionFits_congr rfl
  | callback run cb => exact sessionFits_callback ..
  | timeout id sync =>
      rw [SessionWorld.step, onTimeout, TurnFits]
      cases w.timers.find? fun t => t.1 = id with
      | none => simp
      | some t =>
          simp only [Option.some.injEq, forall_eq']
          rw [sessionFits_giveUp]
          exact and_congr_left' (sessionFits_congr rfl)
  | close sync => exact sessionFits_cancelTurns ..

theorem sessionFits_iff (env : SessionEnv) (acts : List SessionAction) :
    (∀ pre post, acts = pre ++ post → SessionFits (SessionWorld.runFrom env pre)) ↔
      Machine.Along (SessionWorld.step env) (TurnFits env) SessionWorld.start acts :=
  Machine.always_iff (J := fun _ => True) (I := SessionFits) (fun _ _ h => h)
    (fun _ act _ hfits => (sessionFits_step act).trans (and_iff_right hfits)) trivial
    (fun _ h => nomatch h)

/-! ### Streamed output -/

/-- **Streamed output fits its frames just where every event and every final message does.** -/
theorem frames_fit_iff (env : Env) (acts : List Action) (senv : SessionEnv)
    (sacts : List SessionAction) :
    ((∀ pre post, acts = pre ++ post → StreamFits (runFrom env pre)) ↔
        Along env (EventFits env) acts) ∧
      ((∀ pre post, sacts = pre ++ post → SessionFits (SessionWorld.runFrom senv pre)) ↔
        Machine.Along (SessionWorld.step senv) (TurnFits senv) SessionWorld.start sacts) :=
  ⟨streamFits_iff env acts, sessionFits_iff senv sacts⟩

/-- An event with this much text. -/
def sampleOutput (n : Nat) : EngineEvent where
  fields := [(js "kind", .lit "assistant_text"), (js "text", .str (List.replicate n (unit 'a')))]
  wellFormed := by rfl

theorem le_jsonBytes_sampleOutput (n : Nat) : n ≤ jsonBytes (.obj (sampleOutput n).fields) := by
  have hplain : ∀ u ∈ List.replicate n (unit 'a'), isPlain u = true := by
    intro u hu
    rw [List.eq_of_mem_replicate hu]
    decide
  have htext := quotedBytes_of_plain hplain
  rw [List.length_replicate] at htext
  rw [jsonBytes, ← stringifyObject, sampleOutput, byteLength_stringifyObject _ _ rfl]
  simp only [List.map_cons, List.map_nil, List.sum_cons, List.sum_nil]
  rw [entryBytes_key (n := 6) (by decide) rfl, entryBytes_key (n := 6) (by decide) rfl,
    jsonBytes_str, htext]
  omega

/-- One event of a frame's length. -/
theorem frame_exceeded : ¬ ∀ env acts senv sacts,
    (∀ pre post, acts = pre ++ post → StreamFits (runFrom env pre)) ∧
      ∀ pre post, sacts = pre ++ post → SessionFits (SessionWorld.runFrom senv pre) := by
  intro hall
  let env := sampleEnv sampleDigest .limits
  obtain ⟨hstream, -⟩ := hall env
    [sampleAssign "a" "l", .callback 0 (.event (sampleOutput maxFrameBytes))]
    ⟨false, false, 1, 0, env.agentRunId, env.envelope⟩ []
  obtain ⟨-, hfits, -⟩ := (streamFits_iff env _).mp hstream
  have hle := hfits (by decide +kernel) (by decide +kernel) (by decide +kernel)
  have hlong := le_jsonBytes_sampleOutput maxFrameBytes
  unfold streamEventBytes at hle
  omega

end HuginAgent
