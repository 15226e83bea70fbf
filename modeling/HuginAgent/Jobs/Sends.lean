/-
What each action sends.

`sentOf` lists the messages an action hands to `send`, with the questions its handler
asks, and `step_sent` says that the log of sent messages grows by exactly these.  It is
`callsOf` once more, for the server's side of the manager.
-/
import HuginAgent.Jobs.Fencing

namespace HuginAgent

open JobManager Ledger

variable {env : Env} {w : World} {r : Ref}

/-- The answers to an assignment. -/
def answersOf (env : Env) (w : World) (msg : JobAssign) (reply : EngineReply) : List JsObject :=
  let ctx : AttemptCtx := ⟨msg.jobId, msg.attemptId, msg.leaseId⟩
  match existing w msg.attemptId with
  | some (leaseId, agentRunId) =>
      if leaseMatches leaseId msg.leaseId then
        [jobAccept { ctx with leaseId } agentRunId (env.envelope w.draws)]
      else
        [jobReject ctx .staleLease (js "attempt already accepted under a different lease")
          (env.envelope w.draws)]
  | none =>
      match refusal env w msg reply with
      | some (code, message) => [jobReject ctx code message (env.envelope w.draws)]
      | none => [jobAccept ctx (env.agentRunId w.draws) (env.envelope (w.draws + 1)),
          jobStatusMsg ctx .running (env.envelope (w.draws + 2))]

/-- The messages of `resume_from`, up to a payload that is no text of an object. -/
def resentEvents (env : Env) (leaseId : Option JsString) : Nat → List JsString → List JsObject
  | _, [] => []
  | draw, p :: rest =>
      match parseObject p with
      | none => []
      | some msg => restamp leaseId msg (env.envelope draw) :: resentEvents env leaseId (draw + 1) rest

/-- The message of `resend_result`, when it has a digest. -/
def resentResult (env : Env) (w : World) (d : ResumeDirective) (res : StoredResult) :
    List JsObject :=
  match parseObject res.payload with
  | none => []
  | some o =>
      let leaseId := d.leaseId.getD (asString (o.get (js "lease_id")))
      let msg := restamp (some leaseId) o (env.envelope w.draws)
      match resultDigest env.sha256Base64Url msg with
      | .error _ => []
      | .ok _ => [msg]

def approvalMsgOf (env : Env) (w : World) (r : Ref) (req : ApprovalRequest) : JsObject :=
  approvalRequestMsg (w.jobs r).ctx
    { requestId := req.requestId
      toolName := req.toolName
      inputSummary := inputSummaryOf req.input
      risk := req.risk.getD .medium
      approvalTimeoutMs := env.approvalTimeoutMs } (env.envelope w.draws)

def sentOfCallback (env : Env) (w : World) (r : Ref) : Callback → List JsObject
  | .event ev =>
      if r ∈ w.runs ∧ (w.jobs r).fenced = false ∧
          (w.store.events.insert? (eventRowOf env w r ev)).isSome then
        [eventMsgOf env w r ev]
      else []
  | .approval req =>
      if r ∈ w.runs ∧ (w.jobs r).fenced = false then [approvalMsgOf env w r req] else []
  | .done outcome =>
      if (r ∈ w.runs ∧ r ∉ w.ended) ∧ (w.jobs r).fenced = false then
        match resultDigest env.sha256Base64Url (resultMsgOf env w r outcome) with
        | .error _ => []
        | .ok _ => [resultMsgOf env w r outcome]
      else []

/-- The messages of an action. -/
def sentOf (env : Env) (w : World) : Action → List JsObject
  | .assign msg reply => answersOf env w msg reply
  | .cancel msg =>
      match w.registry.get msg.attemptId with
      | some r =>
          if leaseOk w (some r) msg.attemptId msg.leaseId then
            [jobStatusMsg (w.jobs r).ctx .cancelling (env.envelope w.draws)]
          else []
      | none => []
  | .resume d _ =>
      match d.action with
      | .resumeFrom => resentEvents env d.leaseId w.draws
          (w.store.eventsAfter d.attemptId (d.resumeAfterSeq.getD 0))
      | .resendResult =>
          match w.store.resultRow d.attemptId with
          | some res => resentResult env w d res
          | none => []
      | .ackPending | .abandon => []
  | .callback r cb => sentOfCallback env w r cb
  | .streamAck _ | .resultAck _ | .approvalResponse _ | .leaseGranted _ | .revoke .. | .timer _
  | .tick _ | .restart => []

/-! ### The log grows by these -/

theorem sent_resendEvents (leaseId : Option JsString) (payloads : List JsString) :
    (resendEvents env leaseId w payloads).1.sent =
      w.sent ++ resentEvents env leaseId w.draws payloads := by
  induction payloads generalizing w with
  | nil => exact (List.append_nil _).symm
  | cons p rest ih =>
      rw [resendEvents, resentEvents]
      cases parseObject p with
      | none => exact (List.append_nil _).symm
      | some msg =>
          simp only
          rw [ih]
          simp [World.send, World.emit]

/-- Adopting a lease sends nothing and touches neither events nor results. -/
theorem adoptDirectiveLease_frame (w : World) (d : ResumeDirective) :
    (adoptDirectiveLease w d).sent = w.sent ∧ (adoptDirectiveLease w d).draws = w.draws ∧
      (adoptDirectiveLease w d).store.events = w.store.events ∧
      ∀ a, (adoptDirectiveLease w d).store.resultRow a = w.store.resultRow a := by
  unfold adoptDirectiveLease
  split
  · rw [adoptLease_eq]
    exact ⟨rfl, rfl, rfl, fun _ => rfl⟩
  · exact ⟨rfl, rfl, rfl, fun _ => rfl⟩

theorem eventsAfter_congr {s s' : EventLog} (h : s.events = s'.events) (a : JsString) (n : Nat) :
    s.eventsAfter a n = s'.eventsAfter a n := by
  rw [EventLog.eventsAfter, EventLog.eventsAfter, EventLog.eventRowsAfter, EventLog.eventRowsAfter, h]

theorem sent_resume (d : ResumeDirective) (sync : List Callback) :
    (applyDirective env w d sync).1.sent = w.sent ++ sentOf env w (.resume d sync) := by
  obtain ⟨hsent, hdraws, hevents, hresult⟩ := adoptDirectiveLease_frame w d
  cases haction : d.action with
  | resumeFrom =>
      simp only [applyDirective, sentOf, haction]
      rw [sent_resendEvents, hsent, hdraws, eventsAfter_congr hevents]
  | resendResult =>
      simp only [applyDirective, sentOf, haction, EventLog.getResult, hresult]
      cases w.store.resultRow d.attemptId with
      | none => exact hsent.trans (List.append_nil _).symm
      | some res =>
          simp only [Option.map_some, resendResult, StoredResult.read_payload, resentResult, hdraws]
          cases parseObject res.payload with
          | none => exact hsent.trans (List.append_nil _).symm
          | some o =>
              simp only
              generalize resultDigest env.sha256Base64Url _ = digest
              cases digest with
              | error e => exact hsent.trans (List.append_nil _).symm
              | ok digest => exact congrArg (· ++ _) hsent
  | ackPending =>
      simp only [applyDirective, sentOf, haction, List.append_nil]
  | abandon =>
      simp only [applyDirective, sentOf, haction, List.append_nil]
      cases w.registry.get d.attemptId with
      | none => rfl
      | some r => exact fence_sent d.attemptId sync

theorem sent_callback (cb : Callback) :
    (callback env w r cb).sent = w.sent ++ sentOfCallback env w r cb := by
  by_cases hrun : r ∈ w.runs
  · by_cases hf : (w.jobs r).fenced = true
    · -- a fenced job is silent
      have hnone : sentOfCallback env w r cb = [] := by
        cases cb <;> simp [sentOfCallback, hf]
      rw [callback_fenced hf, hnone, List.append_nil]
      split <;> rfl
    · rw [Bool.not_eq_true] at hf
      cases cb with
      | event ev =>
          simp only [callback, hrun, if_true, sentOfCallback, hf, true_and]
          cases hins : w.store.events.insert? (eventRowOf env w r ev) with
          | none =>
              rw [onEvent_burn hf hins]
              simp [World.modifyJob]
          | some events =>
              rw [onEvent_stored hf hins]
              split <;> simp [eventStored, World.emit, World.modifyJob, World.callRun]
      | approval req =>
          simp only [callback, hrun, if_true, sentOfCallback, hf, true_and]
          simp [onApprovalRequest, hf, World.send, World.emit, World.modifyJob, approvalMsgOf]
      | done outcome =>
          by_cases hended : r ∈ w.ended
          · simp [callback, sentOfCallback, hended]
          · have hact : (r ∈ w.runs ∧ r ∉ w.ended) ∧ (w.jobs r).fenced = false := ⟨⟨hrun, hended⟩, hf⟩
            rw [callback, if_pos hact.1, sentOfCallback, if_pos hact]
            cases hdigest : resultDigest env.sha256Base64Url (resultMsgOf env w r outcome) with
            | error e =>
                rw [onDone_lost hf hdigest]
                exact (List.append_nil _).symm
            | ok digest =>
                rw [onDone_saved hf hdigest]
                rfl
  · have hnone : sentOfCallback env w r cb = [] := by
      cases cb <;> simp [sentOfCallback, hrun]
    rw [hnone, List.append_nil]
    cases cb <;> simp [callback, hrun]

/-- **An action sends what `sentOf` says and nothing else.** -/
theorem step_sent (env : Env) (w : World) (act : Action) :
    (step env w act).sent = w.sent ++ sentOf env w act := by
  cases act with
  | assign msg reply =>
      simp only [step, handleAssign, sentOf, answersOf]
      cases existing w msg.attemptId with
      | some found =>
          simp only
          split <;> rfl
      | none =>
          cases refusal env w msg reply with
          | some rej => rfl
          | none =>
              simp only [acceptAssign]
              cases reply.runThrows <;> simp [World.send, World.emit, World.modifyJob]
  | streamAck msg =>
      simp only [step, handleStreamAck, sentOf, List.append_nil]
      repeat' split
      all_goals rfl
  | resultAck msg =>
      simp only [step, handleResultAck, sentOf, List.append_nil]
      repeat' split
      all_goals rfl
  | cancel msg =>
      simp only [step, handleCancel, sentOf]
      cases w.registry.get msg.attemptId with
      | none => rw [List.append_nil]
      | some r =>
          simp only
          split
          · simp [World.callRun, World.send, World.emit, World.modifyJob, JobState.ctx]
          · rw [List.append_nil]
  | approvalResponse msg =>
      simp only [step, handleApprovalResponse, sentOf, List.append_nil]
      repeat' split
      all_goals rfl
  | leaseGranted msg =>
      simp only [step, handleLeaseGranted, sentOf, List.append_nil]
      split <;> rfl
  | revoke msg sync =>
      simp only [step, handleRevoke, sentOf, List.append_nil]
      cases w.registry.get msg.attemptId with
      | none => rfl
      | some r =>
          simp only
          split
          · exact fence_sent msg.attemptId sync
          · rfl
  | resume d sync => exact sent_resume d sync
  | callback r cb => exact sent_callback cb
  | timer id =>
      simp only [step, onTimer, sentOf, List.append_nil]
      split <;> rfl
  | tick ms => exact (List.append_nil _).symm
  | restart => exact (List.append_nil _).symm

end HuginAgent
